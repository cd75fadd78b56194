import Drafting.Draw.Layer
import Drafting.Text.Box

/-!
The strokes a drawing is made of.

Each stroke goes to a layer; a text that is empty and a line of fewer than two points leave nothing.
-/

namespace Drafting.Draw

variable {α : Type}

/-- The head of a line and whether it is dashed. -/
structure Line where
  /-- The head at its end. -/
  arrow : ArrowHead
  /-- Whether it is dashed. -/
  dashed : Bool
deriving Repr, DecidableEq, Inhabited

/-- A solid line without a head. -/
def Line.solid : Line := ⟨.none, false⟩

/-- A rectangle. -/
def box (layer : Layer) (role : Role) (bounds : Bounds α) : Layered α :=
  [(layer, .rectangle bounds role)]

/-- A line from one point to another. -/
def segment (layer : Layer) (role : Role) (line : Line) (p q : Point α) : Layered α :=
  [(layer, .polyline [p, q] role line.arrow line.dashed)]

/-- An arrow along points. -/
def arrow (role : Role) (line : Line) (points : List (Point α)) : Layered α :=
  if points.length < 2 then [] else [(.arrow, .polyline points role line.arrow line.dashed)]

/-- An outline. -/
def outline (layer : Layer) (role : Role) (segments : List (Segment α)) : Layered α :=
  [(layer, .path segments role)]

/-- A text around the center of its box. -/
def label [Scalar α] (role : Role) (style : TextStyle) (t : TextBox α) : Layered α :=
  if t.content.isEmpty then [] else [(.text, .text t.bounds.center .middle t.content style role)]

/-- A text that may be absent. -/
def label? [Scalar α] (role : Role) (style : TextStyle) (t : Option (TextBox α)) : Layered α :=
  t.toList.flatMap (label role style)

end Drafting.Draw
