import Drafting.Document

/-!
Assembling TOML tables.

A table may be begun by a header, by a dotted key, or by the header of a table below it, and each
way has its own rules for what may be added later.  A `Tree` keeps that history;
`Tree.toDocument` forgets it.

* `Entries.assign?`: sets the value of a dotted key.  No key is set twice, and no table with a
  header of its own is extended.
* `Entries.open?`: begins the table of a header, once.
* `Entries.append?`: begins a further table of a list of tables.
-/

namespace Drafting.Toml

/-- How a table came about. -/
inductive Origin where
  /-- By the header of a table below it. -/
  | implied
  /-- By a dotted key. -/
  | dotted
  /-- By a header of its own. -/
  | header
deriving Repr, DecidableEq

/-- What a key stands for while a document is assembled. -/
inductive Tree where
  /-- A value, which is complete. -/
  | leaf (value : Document)
  /-- A table. -/
  | table (origin : Origin) (entries : List (String × Tree))
  /-- A list of tables, the latest first. -/
  | tables (latest : List (String × Tree)) (earlier : List (List (String × Tree)))

/-- The entries of a table. -/
abbrev Entries := List (String × Tree)

namespace Entries

/-- The entry of a key. -/
def find? (entries : Entries) (key : String) : Option Tree :=
  (List.find? (fun entry => entry.1 == key) entries).map (·.2)

/-- Replaces the entry of a key, or adds it at the end. -/
def set (key : String) (tree : Tree) : Entries → Entries
  | [] => [(key, tree)]
  | entry :: rest => if entry.1 == key then (key, tree) :: rest else entry :: set key tree rest

/-- Sets the value of a dotted key.  The way to it may pass through a list of tables, which then
stands for its latest table, but may not end there. -/
def assign? (value : Document) : List String → Entries → Option Entries
  | [], _ => none
  | [key], entries =>
    match find? entries key with
    | none => some (entries ++ [(key, .leaf value)])
    | some _ => none
  | key :: path, entries =>
    match find? entries key with
    | none => (assign? value path []).map fun sub => entries ++ [(key, .table .dotted sub)]
    | some (.table origin sub) =>
      if origin = .header then none
      else (assign? value path sub).map fun sub => set key (.table origin sub) entries
    | some (.tables latest earlier) =>
      if path.length = 1 then none
      else (assign? value path latest).map fun sub => set key (.tables sub earlier) entries
    | some (.leaf _) => none

/-- Walks to the table a header is in and changes it there; the tables on the way are created as
needed. -/
def within? (change : String → Entries → Option Entries) : List String → Entries → Option Entries
  | [], _ => none
  | [key], entries => change key entries
  | key :: path, entries =>
    match find? entries key with
    | none => (within? change path []).map fun sub => entries ++ [(key, .table .implied sub)]
    | some (.table origin sub) =>
      (within? change path sub).map fun sub => set key (.table origin sub) entries
    | some (.tables latest earlier) =>
      (within? change path latest).map fun sub => set key (.tables sub earlier) entries
    | some (.leaf _) => none

/-- Begins the table of a header. -/
def open? (path : List String) (entries : Entries) : Option Entries :=
  within? (fun key entries =>
    match find? entries key with
    | none => some (entries ++ [(key, .table .header [])])
    | some (.table .implied sub) => some (set key (.table .header sub) entries)
    | some _ => none) path entries

/-- Begins a further table of a list of tables. -/
def append? (path : List String) (entries : Entries) : Option Entries :=
  within? (fun key entries =>
    match find? entries key with
    | none => some (entries ++ [(key, .tables [] [])])
    | some (.tables latest earlier) => some (set key (.tables [] (latest :: earlier)) entries)
    | some _ => none) path entries

/-- Sets a dotted key in the table of a header. -/
def assignIn? (header : List String) (path : List String) (value : Document) (entries : Entries) :
    Option Entries :=
  match header with
  | [] => assign? value path entries
  | _ =>
    within? (fun key entries =>
      match find? entries key with
      | some (.table origin sub) =>
        (assign? value path sub).map fun sub => set key (.table origin sub) entries
      | some (.tables latest earlier) =>
        (assign? value path latest).map fun sub => set key (.tables sub earlier) entries
      | _ => none) header entries

end Entries

mutual

/-- The document of a tree. -/
def Tree.toDocument : Tree → Document
  | .leaf value => value
  | .table _ entries => .table (Tree.documents entries)
  | .tables latest earlier => .array (Tree.tableDocuments [.table (Tree.documents latest)] earlier)

/-- The documents of the entries of a table. -/
def Tree.documents : List (String × Tree) → List (String × Document)
  | [] => []
  | (key, tree) :: rest => (key, tree.toDocument) :: Tree.documents rest

/-- The documents of a list of tables, the latest first, put before those of later ones. -/
def Tree.tableDocuments (later : List Document) : List (List (String × Tree)) → List Document
  | [] => later
  | entries :: rest => Tree.tableDocuments (.table (Tree.documents entries) :: later) rest

end

end Drafting.Toml
