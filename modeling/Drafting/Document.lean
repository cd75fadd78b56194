import Drafting.Decimal

/-!
Documents: the data that configuration files hold and finished layouts are exported as.
-/

namespace Drafting

/-- A document. -/
inductive Document where
  /-- Nothing. -/
  | null
  /-- A truth value. -/
  | bool (b : Bool)
  /-- A whole number written without a fraction and without an exponent. -/
  | int (n : Int)
  /-- Any other number. -/
  | number (d : Decimal)
  /-- A text. -/
  | str (s : String)
  /-- A date or a time of day, as it is written. -/
  | moment (text : String)
  /-- A list. -/
  | array (items : List Document)
  /-- Named entries in the order in which they are written. -/
  | table (entries : List (String × Document))
deriving Repr, Inhabited

namespace Document

/-- The entry of a name; the last one counts. -/
def find? (entries : List (String × Document)) (name : String) : Option Document :=
  entries.foldl (fun found entry => if entry.1 == name then some entry.2 else found) none

/-- The entry of a name in a table, unless it is absent or nothing. -/
def field? : Document → String → Option Document
  | table entries, name =>
    match find? entries name with
    | some null => none
    | found => found
  | _, _ => none

/-- A natural number. -/
def ofNat (n : Nat) : Document := int n

/-- A document, or nothing. -/
def ofOption (o : Option Document) : Document := o.getD null

/-- The text of a document that is one. -/
def str? : Document → Option String
  | str s => some s
  | _ => none

/-- The truth value of a document that is one. -/
def bool? : Document → Option Bool
  | bool b => some b
  | _ => none

/-- The whole number of a document that is one. -/
def int? : Document → Option Int
  | int n => some n
  | _ => none

/-- The natural number of a document that is one. -/
def nat? : Document → Option Nat
  | int n => if 0 ≤ n then some n.toNat else none
  | _ => none

/-- The items of a list. -/
def array? : Document → Option (List Document)
  | array items => some items
  | _ => none

end Document

end Drafting
