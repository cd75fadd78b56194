import Drafting.Document.Reader

/-!
The quoted texts of TOML and its white space.

A text in double quotes knows escapes, one in single quotes knows none; tripled quotes
enclose a text of several lines, whose first line break is dropped and whose other line
breaks are kept as they are.
-/

namespace Drafting.Toml

/-- Skips spaces and tabs. -/
def skipSpace (cs : List Char) : List Char := cs.dropWhile fun c => c == ' ' || c == '\t'

/-- Whether a character is a control character that may not stand in a document. -/
def isForbidden (c : Char) : Bool := (c.toNat < 0x20 && c != '\t') || c.toNat == 0x7F

/-- Takes a line break off the front. -/
def lineBreak : List Char → Option (List Char)
  | '\n' :: rest => some rest
  | '\r' :: '\n' :: rest => some rest
  | _ => none

/-- Skips a comment up to the end of the line. -/
def comment : List Char → Option (List Char)
  | '#' :: rest =>
    let after := rest.dropWhile fun c => !isForbidden c
    match after with
    | [] => some []
    | _ => (lineBreak after).map fun _ => after
  | cs => some cs

/-- Skips spaces and a comment; what follows must be the end of the line, which is taken too. -/
def endOfLine (cs : List Char) : Option (List Char) :=
  match comment (skipSpace cs) with
  | some [] => some []
  | some rest => lineBreak rest
  | none => none

/-- Skips spaces, comments and line breaks. -/
def skipLines : Nat → List Char → List Char
  | 0, cs => cs
  | fuel + 1, cs =>
    let rest := skipSpace cs
    match rest with
    | '#' :: _ =>
      match comment rest with
      | some after => skipLines fuel after
      | none => rest
    | _ =>
      match lineBreak rest with
      | some after => skipLines fuel after
      | none => rest

/-- Skips spaces and line breaks. -/
def skipBlank : List Char → List Char
  | ' ' :: rest => skipBlank rest
  | '\t' :: rest => skipBlank rest
  | '\n' :: rest => skipBlank rest
  | '\r' :: '\n' :: rest => skipBlank rest
  | cs => cs

/-- A character given by its number. -/
def charOf? (n : Nat) : Option Char := if n.isValidChar then some (Char.ofNat n) else none

/-- Reads what follows a backslash. -/
def escape : Reader Char
  | 'b' :: rest => some (Char.ofNat 8, rest)
  | 't' :: rest => some ('\t', rest)
  | 'n' :: rest => some ('\n', rest)
  | 'f' :: rest => some (Char.ofNat 12, rest)
  | 'r' :: rest => some ('\r', rest)
  | 'e' :: rest => some (Char.ofNat 27, rest)
  | '"' :: rest => some ('"', rest)
  | '\\' :: rest => some ('\\', rest)
  | 'x' :: rest => do
    let (n, rest) ← Reader.hex 2 rest
    (charOf? n).map (·, rest)
  | 'u' :: rest => do
    let (n, rest) ← Reader.hex 4 rest
    (charOf? n).map (·, rest)
  | 'U' :: rest => do
    let (n, rest) ← Reader.hex 8 rest
    (charOf? n).map (·, rest)
  | _ => none

/-- Reads a text in double quotes after the opening one; `read` is what has been read, reversed. -/
def basicBody : Nat → List Char → Reader String
  | 0, _, _ => none
  | _, _, [] => none
  | fuel + 1, read, c :: rest =>
    if c = '"' then some (String.ofList read.reverse, rest)
    else if c = '\\' then
      match escape rest with
      | some (d, rest) => basicBody fuel (d :: read) rest
      | none => none
    else if isForbidden c then none
    else basicBody fuel (c :: read) rest

/-- Reads a text in single quotes after the opening one. -/
def literalBody (cs : List Char) : Option (String × List Char) :=
  let (body, rest) := Reader.span (fun c => c != '\'' && !isForbidden c) cs
  match rest with
  | '\'' :: rest => some (String.ofList body, rest)
  | _ => none

/-- Reads a text of several lines after the opening quotes.  Up to two quotes may precede the
closing three; a backslash at the end of a line joins it to the next word. -/
def linesBody (quote : Char) (escapes : Bool) : Nat → List Char → Reader String
  | 0, _, _ => none
  | _, _, [] => none
  | fuel + 1, read, c :: rest =>
    if c = quote then
      match rest with
      | d :: e :: rest' =>
        if d = quote ∧ e = quote then
          let (more, after) := Reader.span (· == quote) rest'
          if more.length ≤ 2 then some (String.ofList (more ++ read).reverse, after) else none
        else linesBody quote escapes fuel (c :: read) rest
      | _ => none
    else if escapes && c == '\\' then
      match lineBreak (skipSpace rest) with
      | some after => linesBody quote escapes fuel read (skipBlank after)
      | none =>
        match escape rest with
        | some (d, rest) => linesBody quote escapes fuel (d :: read) rest
        | none => none
    else if isForbidden c && (lineBreak (c :: rest)).isNone then none
    else linesBody quote escapes fuel (c :: read) rest

/-- Drops a line break at the front. -/
def dropLineBreak (cs : List Char) : List Char := (lineBreak cs).getD cs

/-- Reads a text of one line, as keys are written. -/
def shortText : Reader String
  | '"' :: rest => basicBody (rest.length + 1) [] rest
  | '\'' :: rest => literalBody rest
  | _ => none

/-- Reads a text. -/
def text : Reader String
  | '"' :: '"' :: '"' :: rest => linesBody '"' true (rest.length + 1) [] (dropLineBreak rest)
  | '\'' :: '\'' :: '\'' :: rest => linesBody '\'' false (rest.length + 1) [] (dropLineBreak rest)
  | cs => shortText cs

end Drafting.Toml
