import Drafting.Draw.Command

/-!
Drawing in layers.

Commands are collected with the layer they belong to, in whatever order they arise, and drawn layer
by layer from the bottom up; within a layer they keep their order.
-/

namespace Drafting.Draw

/-- The layers, from the bottom up. -/
inductive Layer where
  | background | lifeline | content | activation | fragment | note | arrow | text
deriving Repr, DecidableEq, Inhabited

namespace Layer

/-- The name of a layer. -/
def name : Layer → String
  | background => "background"
  | lifeline => "lifeline"
  | content => "content"
  | activation => "activation"
  | fragment => "fragment"
  | note => "note"
  | arrow => "arrow"
  | text => "text"

/-- The layers from the bottom up. -/
def all : List Layer :=
  [background, lifeline, content, activation, fragment, note, arrow, text]

/-- The number of layers below a layer. -/
def level (layer : Layer) : Nat := all.idxOf layer

end Layer

/-- Commands with their layers, in the order in which they were collected. -/
abbrev Layered (α : Type) := List (Layer × Command α)

/-- The commands from the bottom layer up. -/
def Layered.commands {α : Type} (items : Layered α) : List (Command α) :=
  (items.mergeSort fun a b => decide (a.1.level ≤ b.1.level)).map (·.2)

end Drafting.Draw
