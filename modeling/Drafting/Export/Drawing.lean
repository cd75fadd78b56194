import Drafting.Drawing
import Drafting.Export.Graph
import Drafting.Export.Sequence

/-!
Drawings as documents.
-/

namespace Drafting.Export

/-- A mended fault. -/
def diagnostic (d : Diagnostic Float32) : Document :=
  .table
    [("kind", .str d.kind.name),
      ("message", .str d.message),
      ("subject", optional .str d.subject)]

/-- The content of a drawing. -/
def picture : Picture Float32 → Document
  | .sequence layout => sequence layout
  | .graph layout => graph layout

/-- A drawing. -/
def drawing (d : Drawing Float32) : Document :=
  .table
    [("diagram", picture d.picture),
      ("title", optional textBox d.title),
      ("caption", optional textBox d.caption),
      ("bounds", bounds d.bounds),
      ("diagnostics", list diagnostic d.diagnostics)]

end Drafting.Export
