import Drafting.Graph.Model
import Drafting.Sequence.Model

/-!
Diagrams: a sequence diagram or a graph, with a title above it and a caption below.
-/

namespace Drafting

/-- What a diagram shows. -/
inductive Body (α : Type) where
  /-- Participants and events in the order of time. -/
  | sequence (model : Sequence.Model)
  /-- Nodes, edges and clusters. -/
  | graph (model : Graph.Model α)
deriving Repr, DecidableEq

namespace Body

variable {α : Type}

/-- The number of elements that counts against the size limit. -/
def elementCount : Body α → Nat
  | sequence model => model.elementCount
  | graph model => model.elementCount

/-- The name of the kind of diagram. -/
def kindName : Body α → String
  | sequence _ => "sequence"
  | graph _ => "graph"

end Body

/-- A diagram. -/
structure Diagram (α : Type) where
  /-- The text above the diagram. -/
  title : Option String := none
  /-- The text below the diagram. -/
  caption : Option String := none
  /-- What the diagram shows. -/
  body : Body α
deriving Repr, DecidableEq

/-- A short description: the kind of diagram, and its title in quotes. -/
def Diagram.describe {α : Type} (d : Diagram α) : String :=
  match d.title with
  | some title => d.body.kindName ++ " diagram \"" ++ title ++ "\""
  | none => d.body.kindName ++ " diagram"

end Drafting
