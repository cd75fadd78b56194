import Drafting.Draw.Stroke
import Drafting.Sequence.Geometry

/-!
The drawing commands of a sequence diagram: participants, activations from the lowest
up, blocks, then events.
-/

namespace Drafting.Draw

variable {α : Type} [Scalar α]

/-- The side of the folded corner of a note. -/
def noteFold : α := 8

/-- The size of the cut corner of a tab. -/
def tabNotch : α := 5

/-- The line of a message. -/
def messageLine : Sequence.MessageStyle → Line
  | .synchronous => ⟨.filled, false⟩
  | .asynchronous => ⟨.hollow, false⟩
  | .reply => ⟨.hollow, true⟩

/-- A rectangle with its top right corner folded over. -/
def noteOutline (b : Bounds α) : List (Segment α) :=
  let fold := min (min noteFold (Scalar.half b.width)) (Scalar.half b.height)
  [.moveTo b.minPoint, .lineTo ⟨b.maxX - fold, b.minY⟩, .lineTo ⟨b.maxX, b.minY + fold⟩,
    .lineTo b.maxPoint, .lineTo ⟨b.minX, b.maxY⟩, .close]

/-- A cross from corner to corner. -/
def crossOutline (b : Bounds α) : List (Segment α) :=
  [.moveTo b.minPoint, .lineTo b.maxPoint, .moveTo ⟨b.maxX, b.minY⟩, .lineTo ⟨b.minX, b.maxY⟩]

/-- The outline of the tab of a frame.  The text of the tab is centered in it vertically, so its
lower side is as far below the middle of the text as the frame is above. -/
def tabOutline (padding : α) (frame text : Bounds α) : List (Segment α) :=
  let bottom := 2 * text.center.y - frame.minY
  let right := min (text.maxX + padding) frame.maxX
  let notch := min tabNotch (bottom - frame.minY)
  [.moveTo ⟨right, frame.minY⟩, .lineTo ⟨right, bottom - notch⟩, .lineTo ⟨right - notch, bottom⟩,
    .lineTo ⟨frame.minX, bottom⟩]

/-- The commands of a piece of a lifeline; none when it has no length. -/
def lifeline (l : Sequence.LifelineSegment α) : Layered α :=
  if l.endY ≤ l.startY then []
  else segment .lifeline .lifeline ⟨.none, l.dotted⟩ ⟨l.x, l.startY⟩ ⟨l.x, l.endY⟩

/-- The commands of a footer: the box and the text of the header again. -/
def footer (style : TextStyle) (p : Sequence.ParticipantGeometry α) (b : Bounds α) : Layered α :=
  box .content .participantFooter b ++
    label .label style (p.label.translate (b.center.sub p.header.center))

/-- The commands of a participant. -/
def participant (style : TextStyle) (p : Sequence.ParticipantGeometry α) : Layered α :=
  box .content .participantHeader p.header ++ label .label style p.label ++
    p.footer.toList.flatMap (footer style p) ++ p.lifeline.flatMap lifeline ++
    p.destroyMark.toList.flatMap fun b => outline .arrow .destroyMark (crossOutline b)

/-- The commands of a section of a block. -/
def blockPart (style : TextStyle) (frame : Bounds α) (part : Sequence.SectionGeometry α) :
    Layered α :=
  segment .fragment .blockSeparator ⟨.none, true⟩ ⟨frame.minX, part.y⟩ ⟨frame.maxX, part.y⟩ ++
    label? .label style part.label

/-- The commands of a block. -/
def block (padding : α) (style : TextStyle) (b : Sequence.BlockGeometry α) : Layered α :=
  box .fragment .blockFrame b.bounds ++
    outline .fragment .blockFrame (tabOutline padding b.bounds b.tab.bounds) ++
    label .label { style with bold := true } b.tab ++ label? .label style b.label ++
    b.sections.flatMap (blockPart style b.bounds)

/-- The commands of a divider: a line across, and a box for its text. -/
def divider (style : TextStyle) (b : Sequence.BandGeometry α) : Layered α :=
  let y := b.bounds.center.y
  segment .fragment .divider .solid ⟨b.bounds.minX, y⟩ ⟨b.bounds.maxX, y⟩ ++
    b.label.toList.flatMap fun t => box .note .divider t.bounds ++ label .label style t

/-- The commands of an event. -/
def event (styles : Styles) (e : Sequence.EventGeometry α) : Layered α :=
  match e.shape with
  | .message m =>
    arrow .message (messageLine m.style) m.points ++ label? .label styles.message m.label
  | .note n => outline .note .note (noteOutline n.bounds) ++ label .label styles.note n.label
  | .divider b => divider styles.message b
  | .delay b => label? .delay styles.message b.label
  | _ => []

/-- The commands of a sequence diagram. -/
def sequence (config : Config α) (l : Sequence.Layout α) : Layered α :=
  l.participants.flatMap (participant config.styles.participant) ++
    (l.activations.mergeSort fun a b => decide (a.depth ≤ b.depth)).flatMap
      (fun a => box .activation .activation a.bounds) ++
    l.blocks.flatMap (block config.sequence.blockPadding config.styles.message) ++
    l.events.flatMap (event config.styles)

end Drafting.Draw
