import Drafting.Toml.Scalar
import Drafting.Toml.Text
import Drafting.Toml.Tree

/-!
Reading TOML documents.

A document is a list of lines: a header, which begins a table, or a dotted key with its value.
Lines are read one after the other and entered into the tree of tables read so far.  A key has at
most `maxDepth` parts, and in a value lists and tables are nested at most `maxDepth` deep.
-/

namespace Drafting.Toml

/-- How many parts a key may have, and how deep a value may be nested. -/
def maxDepth : Nat := 80

/-- Whether a character may stand in a bare key. -/
def isKeyChar (c : Char) : Bool := c.isAlphanum || c == '_' || c == '-'

/-- Reads one part of a key. -/
def keyPart : Reader String := fun cs =>
  match cs with
  | '"' :: _ => shortText cs
  | '\'' :: _ => shortText cs
  | _ =>
    match Reader.span isKeyChar cs with
    | ([], _) => none
    | (key, rest) => some (String.ofList key, rest)

/-- Reads a dotted key of at most so many parts, blanks around its dots allowed. -/
def keyUpTo : Nat → Reader (List String)
  | 0, _ => none
  | limit + 1, cs =>
    match keyPart (skipSpace cs) with
    | none => none
    | some (part, rest) =>
      match skipSpace rest with
      | '.' :: rest =>
        match keyUpTo limit rest with
        | some (path, rest) => some (part :: path, rest)
        | none => none
      | rest => some ([part], rest)

/-- Reads a dotted key. -/
def key : Reader (List String) := keyUpTo maxDepth

/-- Whether a character may stand in a bare value. -/
def isBareChar (c : Char) : Bool :=
  c.isAlphanum || c == '_' || c == '-' || c == '+' || c == '.' || c == ':'

/-- Reads a bare value.  A blank may stand between a date and a time. -/
def bareValue (cs : List Char) : Option (Document × List Char) :=
  let (word, rest) := Reader.span isBareChar cs
  let joined :=
    match date word, rest with
    | some [], ' ' :: after =>
      let (time, rest) := Reader.span isBareChar after
      if time.head?.any Char.isDigit then some (word ++ ' ' :: time, rest) else none
    | _, _ => none
  match joined with
  | some (word, rest) => (bare? word).map (·, rest)
  | none => (bare? word).map (·, rest)

mutual

/-- Reads a value; `depth` is how deep it may be nested. -/
def value : Nat → Nat → Reader Document
  | 0, _, _ => none
  | fuel + 1, depth, cs =>
    match cs, depth with
    | '"' :: _, _ => (text cs).map fun (s, rest) => (.str s, rest)
    | '\'' :: _, _ => (text cs).map fun (s, rest) => (.str s, rest)
    | '[' :: _, 0 => none
    | '[' :: rest, depth + 1 => items fuel depth [] rest
    | '\x7b' :: _, 0 => none
    | '\x7b' :: rest, depth + 1 => inlineEntries fuel depth [] rest
    | _, _ => bareValue cs

/-- Reads the items of a list up to its closing bracket; `read` holds the earlier ones, reversed. -/
def items : Nat → Nat → List Document → Reader Document
  | 0, _, _, _ => none
  | fuel + 1, depth, read, cs =>
    match skipLines (cs.length + 1) cs with
    | ']' :: rest => some (.array read.reverse, rest)
    | rest =>
      match value fuel depth rest with
      | none => none
      | some (item, rest) =>
        match skipLines (rest.length + 1) rest with
        | ',' :: rest => items fuel depth (item :: read) rest
        | ']' :: rest => some (.array (item :: read).reverse, rest)
        | _ => none

/-- Reads the entries of an inline table up to its closing brace.  Lines may end
anywhere but inside a key. -/
def inlineEntries : Nat → Nat → Entries → Reader Document
  | 0, _, _, _ => none
  | fuel + 1, depth, read, cs =>
    match skipLines (cs.length + 1) cs with
    | '\x7d' :: rest => some (.table (Tree.documents read), rest)
    | rest =>
      match key rest with
      | none => none
      | some (path, rest) =>
        match skipLines (rest.length + 1) rest with
        | '=' :: rest =>
          match value fuel depth (skipLines (rest.length + 1) rest) with
          | none => none
          | some (item, rest) =>
            match Entries.assign? item path read with
            | none => none
            | some read =>
              match skipLines (rest.length + 1) rest with
              | ',' :: rest => inlineEntries fuel depth read rest
              | '\x7d' :: rest => some (.table (Tree.documents read), rest)
              | _ => none
        | _ => none

end

/-- A line of a document that is not empty. -/
inductive Line where
  /-- The header of a table. -/
  | header (path : List String)
  /-- The header of a further table of a list. -/
  | item (path : List String)
  /-- A key with its value. -/
  | assign (path : List String) (value : Document)

/-- Reads one line, its end included. -/
def line : Reader Line := fun cs =>
  match cs with
  | '[' :: '[' :: rest =>
    match key rest with
    | some (path, ']' :: ']' :: rest) => (endOfLine rest).map (Line.item path, ·)
    | _ => none
  | '[' :: rest =>
    match key rest with
    | some (path, ']' :: rest) => (endOfLine rest).map (Line.header path, ·)
    | _ => none
  | _ =>
    match key cs with
    | some (path, '=' :: rest) =>
      match value (rest.length + 1) maxDepth (skipSpace rest) with
      | some (item, rest) => (endOfLine rest).map (Line.assign path item, ·)
      | none => none
    | _ => none

/-- Reads the lines of a document into the entries of its tables; `header` is the table
that keys are set in. -/
def lines : Nat → List String → Entries → List Char → Option Entries
  | 0, _, _, _ => none
  | fuel + 1, header, entries, cs =>
    match skipLines (cs.length + 1) cs with
    | [] => some entries
    | rest =>
      match line rest with
      | none => none
      | some (.header path, rest) =>
        (entries.open? path).bind fun entries => lines fuel path entries rest
      | some (.item path, rest) =>
        (entries.append? path).bind fun entries => lines fuel path entries rest
      | some (.assign path item, rest) =>
        (entries.assignIn? header path item).bind fun entries => lines fuel header entries rest

/-- Reads a document; a byte order mark at its start is skipped. -/
def parse? (s : String) : Option Document :=
  let cs := s.toList
  let cs := if cs.head? = some (Char.ofNat 0xFEFF) then cs.tail else cs
  (lines (cs.length + 1) [] [] cs).map fun entries => .table (Tree.documents entries)

end Drafting.Toml
