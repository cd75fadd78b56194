import Drafting.Document
import Drafting.Document.Reader

/-!
Documents in JSON.

* `Json.parse?`: reads a document.
* `Json.render`: writes a document.  Numbers are positional, and characters outside the printable
  ASCII range are escaped.

A number without a fraction and an exponent is whole, unless it is the negative
zero or exceeds 64 bits.
-/

namespace Drafting.Json

open Document

/-! ### Reading -/

/-- Skips blanks. -/
def skip (cs : List Char) : List Char :=
  cs.dropWhile fun c => c == ' ' || c == '\t' || c == '\n' || c == '\r'

/-- Reads a code unit and, when it is the first half of a pair, the second half. -/
def codePoint : Reader Char := fun cs => do
  let (n, rest) ← Reader.hex 4 cs
  if 0xD800 ≤ n ∧ n < 0xDC00 then
    let rest ← Reader.literal ['\\', 'u'] rest
    let (m, rest) ← Reader.hex 4 rest
    if 0xDC00 ≤ m ∧ m < 0xE000 then
      some (Char.ofNat (0x10000 + (n - 0xD800) * 0x400 + (m - 0xDC00)), rest)
    else none
  else if 0xDC00 ≤ n ∧ n < 0xE000 then none
  else some (Char.ofNat n, rest)

/-- Reads what follows a backslash. -/
def escape : Reader Char
  | '"' :: rest => some ('"', rest)
  | '\\' :: rest => some ('\\', rest)
  | '/' :: rest => some ('/', rest)
  | 'b' :: rest => some (Char.ofNat 8, rest)
  | 'f' :: rest => some (Char.ofNat 12, rest)
  | 'n' :: rest => some ('\n', rest)
  | 'r' :: rest => some ('\r', rest)
  | 't' :: rest => some ('\t', rest)
  | 'u' :: rest => codePoint rest
  | _ => none

/-- Reads the rest of a text after its opening quote; `read` holds what has been read, reversed. -/
def textBody : Nat → List Char → Reader String
  | 0, _, _ => none
  | _, _, [] => none
  | fuel + 1, read, c :: rest =>
    if c = '"' then some (String.ofList read.reverse, rest)
    else if c = '\\' then
      match escape rest with
      | some (d, rest) => textBody fuel (d :: read) rest
      | none => none
    else if c.toNat < 0x20 then none
    else textBody fuel (c :: read) rest

/-- Reads a text of fewer characters than the fuel. -/
def text (fuel : Nat) : Reader String
  | '"' :: rest => textBody fuel [] rest
  | _ => none

/-- Reads digits, at least one. -/
def digits : Reader (List Char) := fun cs =>
  match Reader.span Char.isDigit cs with
  | ([], _) => none
  | (ds, rest) => some (ds, rest)

/-- Reads an exponent, if there is one. -/
def exponent : Reader (Option Int)
  | c :: rest =>
    if c = 'e' ∨ c = 'E' then
      let (negative, rest) :=
        match rest with
        | '-' :: rest => (true, rest)
        | '+' :: rest => (false, rest)
        | rest => (false, rest)
      do
        let (ds, rest) ← digits rest
        let n ← Reader.digits? 10 ds
        some (some (if negative then -(n : Int) else n), rest)
    else some (none, c :: rest)
  | [] => some (none, [])

/-- Reads a fraction, if there is one. -/
def fraction : Reader (Option (List Char))
  | '.' :: rest => (digits rest).map fun (ds, rest) => (some ds, rest)
  | cs => some (none, cs)

/-- Whether a whole number is kept as such. -/
def keepsInteger (negative : Bool) (n : Nat) : Bool :=
  if negative then 0 < n && n ≤ 0x8000000000000000 else n < 0x10000000000000000

/-- Reads a number. -/
def number : Reader Document := fun cs => do
  let (negative, rest) :=
    match cs with
    | '-' :: rest => (true, rest)
    | rest => (false, rest)
  let (whole, rest) ← digits rest
  if whole.head? = some '0' ∧ 1 < whole.length then none
  else
    let (frac, rest) ← fraction rest
    let (exp, rest) ← exponent rest
    let n ← Reader.digits? 10 (whole ++ frac.getD [])
    match frac, exp with
    | none, none =>
      if keepsInteger negative n then some (.int (if negative then -(n : Int) else n), rest)
      else some (.number (.finite negative n 0), rest)
    | _, _ =>
      let places : Int := (frac.getD []).length
      some (.number (.finite negative n (exp.getD 0 - places)), rest)

mutual

/-- Reads a document. -/
def value : Nat → Reader Document
  | 0, _ => none
  | fuel + 1, cs =>
    match skip cs with
    | 'n' :: rest => (Reader.literal ['u', 'l', 'l'] rest).map (Document.null, ·)
    | 't' :: rest => (Reader.literal ['r', 'u', 'e'] rest).map (Document.bool true, ·)
    | 'f' :: rest => (Reader.literal ['a', 'l', 's', 'e'] rest).map (Document.bool false, ·)
    | '"' :: rest => (text fuel ('"' :: rest)).map fun (s, rest) => (Document.str s, rest)
    | '[' :: rest =>
      match skip rest with
      | ']' :: rest => some (.array [], rest)
      | rest => items fuel [] rest
    | '\x7b' :: rest =>
      match skip rest with
      | '\x7d' :: rest => some (.table [], rest)
      | rest => entries fuel [] rest
    | rest => number rest

/-- Reads the items of a list up to its closing bracket; `read` holds the earlier ones, reversed. -/
def items : Nat → List Document → Reader Document
  | 0, _, _ => none
  | fuel + 1, read, cs =>
    match value fuel cs with
    | none => none
    | some (item, rest) =>
      match skip rest with
      | ',' :: rest => items fuel (item :: read) rest
      | ']' :: rest => some (.array (item :: read).reverse, rest)
      | _ => none

/-- Reads the entries of a table up to its closing brace; `read` holds the
earlier ones, reversed. -/
def entries : Nat → List (String × Document) → Reader Document
  | 0, _, _ => none
  | fuel + 1, read, cs =>
    match text fuel (skip cs) with
    | none => none
    | some (name, rest) =>
      match skip rest with
      | ':' :: rest =>
        match value fuel rest with
        | none => none
        | some (item, rest) =>
          match skip rest with
          | ',' :: rest => entries fuel ((name, item) :: read) rest
          | '\x7d' :: rest => some (.table ((name, item) :: read).reverse, rest)
          | _ => none
      | _ => none

end

/-- Reads a text that holds one document and nothing else.  Every character read takes at
most two units of fuel. -/
def parse? (s : String) : Option Document :=
  let cs := s.toList
  match value (2 * cs.length + 2) cs with
  | some (d, rest) => if (skip rest).isEmpty then some d else none
  | none => none

/-! ### Writing -/

/-- The escape of a code unit. -/
def unitEscape (n : Nat) : String :=
  let ds := Nat.toDigits 16 n
  "\\u" ++ String.ofList (List.replicate (4 - ds.length) '0' ++ ds)

/-- A character as it stands between quotes. -/
def charText (c : Char) : String :=
  let n := c.toNat
  if c = '"' then "\\\""
  else if c = '\\' then "\\\\"
  else if 0x20 ≤ n ∧ n < 0x7F then c.toString
  else if n < 0x10000 then unitEscape n
  else unitEscape (0xD800 + (n - 0x10000) / 0x400) ++ unitEscape (0xDC00 + (n - 0x10000) % 0x400)

/-- A text in quotes. -/
def quoted (s : String) : String :=
  s.toList.foldl (fun acc c => acc ++ charText c) "\"" ++ "\""

/-- A number; what is not one is written as a text. -/
def numeral (d : Decimal) : String :=
  match d.unsignedZero with
  | .finite negative digits exponent => (Decimal.finite negative digits exponent).positional
  | other => quoted other.positional

mutual

/-- Writes a document after a text. -/
def renderAfter (acc : String) : Document → String
  | .null => acc ++ "null"
  | .bool b => acc ++ (if b then "true" else "false")
  | .int n => acc ++ toString n
  | .number d => acc ++ numeral d
  | .str s => acc ++ quoted s
  | .moment s => acc ++ quoted s
  | .array xs => renderItems (acc ++ "[") true xs ++ "]"
  | .table xs => renderEntries (acc ++ "\x7b") true xs ++ "\x7d"

/-- Writes the items of a list after a text. -/
def renderItems (acc : String) (first : Bool) : List Document → String
  | [] => acc
  | x :: xs => renderItems (renderAfter (if first then acc else acc ++ ",") x) false xs

/-- Writes the entries of a table after a text. -/
def renderEntries (acc : String) (first : Bool) : List (String × Document) → String
  | [] => acc
  | (name, x) :: xs =>
    renderEntries
      (renderAfter ((if first then acc else acc ++ ",") ++ quoted name ++ ":") x) false xs

end

/-- Writes a document. -/
def render (d : Document) : String := renderAfter "" d

end Drafting.Json
