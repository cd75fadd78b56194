import Drafting.Diagram
import Drafting.Graph.Layout
import Drafting.Layout.Sheet
import Drafting.Sequence.Layout

/-!
Drawings: diagrams with the place of every element.

* `Drawing`: a diagram laid out on its sheet.
* `Diagram.layout`: the drawing of a diagram.
-/

namespace Drafting

/-- The content of a drawing. -/
inductive Picture (α : Type) where
  /-- A sequence diagram. -/
  | sequence (layout : Sequence.Layout α)
  /-- A graph. -/
  | graph (layout : Graph.Layout α)
deriving Repr, DecidableEq

/-- A diagram laid out on its sheet. -/
structure Drawing (α : Type) where
  /-- The content. -/
  picture : Picture α
  /-- The text above it. -/
  title : Option (TextBox α)
  /-- The text below it. -/
  caption : Option (TextBox α)
  /-- The whole sheet; its corner is the origin. -/
  bounds : Bounds α
  /-- The faults of the diagram that were mended. -/
  diagnostics : List (Diagnostic α)
deriving Repr, DecidableEq

namespace Drawing

variable {α : Type}

/-- The content, if it is a sequence diagram. -/
def sequence? (d : Drawing α) : Option (Sequence.Layout α) :=
  match d.picture with
  | .sequence layout => some layout
  | .graph _ => none

/-- The content, if it is a graph. -/
def graph? (d : Drawing α) : Option (Graph.Layout α) :=
  match d.picture with
  | .sequence _ => none
  | .graph layout => some layout

/-- The size of the sheet. -/
def size [Scalar α] (d : Drawing α) : Size α := d.bounds.size

end Drawing

namespace Diagram

variable {α : Type} [Scalar α]

/-- The drawing of a sequence diagram. -/
def layoutSequence (s : Setting α) (title caption : Option String) (m : Sequence.Model) :
    Except (Failure α) (Drawing α) := do
  let (layout, diagnostics) ← Sequence.Layout.ofModel s m
  let sheet := Sheet.around s s.config.sequence.diagramPadding title caption layout.contentBounds
  .ok ⟨.sequence (layout.translate sheet.offset), sheet.title, sheet.caption,
    sheet.bounds, diagnostics⟩

/-- The drawing of a graph. -/
def layoutGraph (s : Setting α) (title caption : Option String) (m : Graph.Model α) :
    Except (Failure α) (Drawing α) := do
  let layout ← Graph.Layout.ofModel s m
  let sheet := Sheet.around s s.config.graph.diagramPadding title caption layout.contentBounds
  .ok ⟨.graph (layout.translate sheet.offset), sheet.title, sheet.caption, sheet.bounds,
    Graph.Layout.diagnostics m⟩

/-- The drawing of a diagram.  The configuration must be valid, and the
diagram within its limits. -/
def layout (s : Setting α) (d : Diagram α) : Except (Failure α) (Drawing α) :=
  match s.config.validate with
  | .error e => .error (.config e)
  | .ok () =>
    let elements := d.body.elementCount
    let limit := s.config.limits.maxElements
    if limit < elements then .error (.sizeLimit elements limit)
    else
      match d.body with
      | .sequence m => layoutSequence s d.title d.caption m
      | .graph m => layoutGraph s d.title d.caption m

end Diagram

end Drafting
