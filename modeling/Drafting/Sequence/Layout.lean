import Drafting.Sequence.Assemble

/-!
The layout of a sequence diagram.

Participants get their columns, events their rows, and both together give the drawing.
-/

namespace Drafting.Sequence.Layout

variable {α : Type} [Scalar α]

/-- The drawing of a sequence diagram, in coordinates of its own, with the faults that were mended;
blocks must not be nested too deeply. -/
def ofModel (s : Setting α) (m : Model) : Except (Failure α) (Layout α × List (Diagnostic α)) :=
  let limit := s.config.limits.maxNestingDepth
  if limit < m.nestingDepth then .error (.nestingLimit m.nestingDepth limit)
  else do
    let roster := Roster.ofModel s m
    let timeline ← Timeline.build s roster m
    let layout ← assemble s roster timeline (Columns.ofTimeline s roster timeline)
    .ok (layout, Roster.diagnostics m ++ timeline.diagnostics)

end Drafting.Sequence.Layout
