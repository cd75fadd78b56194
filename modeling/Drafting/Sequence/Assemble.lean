import Drafting.Sequence.Geometry

/-!
Putting the rows and the columns of a sequence diagram together.

* `lifeline`: the solid and dotted pieces of a lifeline.
* `Assembly.message`, `Assembly.note`, `Assembly.band`: what is drawn for events.
* `Assembly.blockRanges`: the frames of blocks, each around those in it.
* `Layout.assemble`: the whole diagram, in coordinates of its own.
* `Layout.contentBounds`: the smallest box around it.
-/

namespace Drafting.Sequence

variable {α : Type} [Scalar α]

/-! ### Lifelines -/

/-- The pieces of a lifeline from a point on, around the delays that follow. -/
def lifelineFrom (x : α) (stop : α) (cursor : α) : List (α × α) → List (LifelineSegment α) × α
  | [] => ([], cursor)
  | (top, bottom) :: rest =>
    if bottom ≤ cursor ∨ stop ≤ top then lifelineFrom x stop cursor rest
    else
      let top := max top cursor
      let bottom := min bottom stop
      let (pieces, reached) := lifelineFrom x stop bottom rest
      let dotted : LifelineSegment α := ⟨x, top, bottom, true⟩
      if cursor < top then (⟨x, cursor, top, false⟩ :: dotted :: pieces, reached)
      else (dotted :: pieces, reached)

/-- The pieces of a lifeline, dotted where it crosses a delay. -/
def lifeline (delays : List (α × α)) (x start stop : α) : List (LifelineSegment α) :=
  let (pieces, reached) := lifelineFrom x stop start delays
  if reached < stop ∨ pieces.isEmpty then pieces ++ [⟨x, reached, stop, false⟩] else pieces

/-- The side of the cross that marks the end of a participant. -/
def destroyMarkSize : α := 12

/-! ### Assembling -/

/-- All that the places of elements are taken from. -/
structure Assembly (α : Type) where
  /-- The configuration and the measure of text. -/
  setting : Setting α
  /-- The participants from left to right. -/
  roster : Roster α
  /-- The vertical order. -/
  timeline : Timeline α
  /-- The horizontal order. -/
  columns : Columns α

namespace Assembly

variable (a : Assembly α)

/-- The distances of the diagram. -/
def distances : SequenceConfig α := a.setting.config.sequence

/-- An activation bar. -/
def activation (x : Activation α) : ActivationGeometry α :=
  let width := a.distances.activationWidth
  let left := a.columns.center x.column - Scalar.half width +
    Scalar.ofNat x.depth * a.distances.activationIndent
  { participant := (a.roster[x.column]?.map (·.id)).getD ""
    depth := x.depth
    bounds := Bounds.ofCorner ⟨left, x.startY⟩ ⟨width, x.endY - x.startY⟩
    startEvent := x.startEvent
    endEvent := x.endEvent }

/-- The activation bars with their columns. -/
def bars : List (Nat × ActivationGeometry α) :=
  a.timeline.activations.toList.map fun x => (x.column, a.activation x)

omit [Scalar α] in
/-- The deeper of two bars, the later one when they are equally deep. -/
def deeper (best : Option (ActivationGeometry α)) (g : ActivationGeometry α) :
    Option (ActivationGeometry α) :=
  match best with
  | some b => if b.depth ≤ g.depth then some g else some b
  | none => some g

/-- Where an arrow meets a lifeline at a height: at the deepest bar there, on
the side it heads to. -/
def attachX (bars : List (Nat × ActivationGeometry α)) (column : Nat) (y : α) (right : Bool) : α :=
  let covering := bars.filter fun (c, g) =>
    c == column && decide (g.bounds.minY ≤ y) && decide (y ≤ g.bounds.maxY)
  match (covering.map (·.2)).foldl deeper none with
  | some g => if right then g.bounds.maxX else g.bounds.minX
  | none => a.columns.center column

/-- A participant with its lifeline. -/
def participant (delays : List (α × α)) (column : Nat) (c : Column α) : ParticipantGeometry α :=
  let x := a.columns.center column
  let size := c.header
  let left := x - Scalar.half size.width
  let header :=
    match a.timeline.creationY c with
    | some y => Bounds.around ⟨x, y⟩ size
    | none => Bounds.ofCorner ⟨left, a.timeline.headerRow - size.height⟩ size
  let destroyY := a.timeline.destroyY c
  let start := header.maxY
  let stop := max (destroyY.getD a.timeline.lifelineBottom) start
  { id := c.id
    kind := c.kind
    column := column
    centerX := x
    range := a.columns.range column
    header := header
    label := c.label.placeAround header.center
    footer :=
      if a.distances.footbox && destroyY.isNone then
        some (Bounds.ofCorner ⟨left, a.timeline.lifelineBottom⟩ size)
      else none
    lifeline := lifeline delays x start stop
    destroyMark := destroyY.map fun y =>
      Bounds.around ⟨x, max stop y⟩ ⟨destroyMarkSize, destroyMarkSize⟩ }

/-- The points of a message. -/
def messagePoints (bars : List (Nat × ActivationGeometry α)) (index : Nat) (y : α)
    (m : MessageSlot α) : List (Point α) :=
  let stub := Columns.stubLength a.setting m.label
  match m.kind, m.source, m.target with
  | .selfMessage, some column, _ =>
    let bottom := y + a.distances.selfMessageHeight
    let start := a.attachX bars column y true
    let stop := a.attachX bars column bottom true
    let far := max start stop + a.distances.selfMessageWidth
    [⟨start, y⟩, ⟨far, y⟩, ⟨far, bottom⟩, ⟨stop, bottom⟩]
  | .normal, some source, some target =>
    let right := decide (a.columns.center source ≤ a.columns.center target)
    let start := a.attachX bars source y right
    let stop :=
      match a.roster[target]? with
      | some c =>
        if c.createdAt == some index then
          let half := Scalar.half c.header.width
          if right then a.columns.center target - half else a.columns.center target + half
        else a.attachX bars target y (!right)
      | none => a.attachX bars target y (!right)
    [⟨start, y⟩, ⟨stop, y⟩]
  | _, some source, _ =>
    let start := a.attachX bars source y true
    [⟨start, y⟩, ⟨start + stub, y⟩]
  | _, none, some target =>
    let stop := a.attachX bars target y false
    [⟨stop - stub, y⟩, ⟨stop, y⟩]
  | _, none, none => [⟨0, y⟩, ⟨stub, y⟩]

/-- The place of the text of a message: above its line, in the middle, or at the start of a loop. -/
def messageLabel (points : List (Point α)) (y : α) (kind : MessageKind) (text : MeasuredText α) :
    TextBox α :=
  let padding := a.distances.messageLabelPadding
  let top := y - padding - text.size.height
  let first := points.head?.getD Point.origin
  match kind with
  | .selfMessage => text.placeAt ⟨first.x + padding, top⟩
  | _ =>
    let mid := first.midpoint (points.getLast?.getD Point.origin)
    text.placeAt ⟨mid.x - Scalar.half text.size.width, top⟩

/-- The arrow of a message. -/
def message (bars : List (Nat × ActivationGeometry α)) (index : Nat) (y : α) (m : MessageSlot α) :
    MessageGeometry α :=
  let points := a.messagePoints bars index y m
  { kind := m.kind
    style := m.style
    points := points
    label := m.label.map (a.messageLabel points y m.kind) }

/-- The left and right side of a note: at its side of a lifeline, or over a span
of at least its width. -/
def noteSides (n : NoteSlot α) : α × α :=
  let gap := a.distances.noteGap
  let width := n.size.width
  match n.anchor with
  | .leftOf column =>
    let left := a.columns.center column - gap - width
    (left, left + width)
  | .rightOf column =>
    let left := a.columns.center column + a.columns.reach.getD column 0 + gap
    (left, left + width)
  | .spanning first last =>
    let left := a.columns.center first - gap
    let right := a.columns.center last + gap
    let start :=
      if first ≠ last ∧ width ≤ right - left then left
      else Scalar.half (left + right) - Scalar.half width
    (start, if first ≠ last then max right (start + width) else start + width)
  | .across =>
    let (left, right) := a.columns.span
    let start :=
      if width ≤ right - left then left else Scalar.half (left + right) - Scalar.half width
    (start, max right (start + width))

/-- The box of a note. -/
def note (y : α) (n : NoteSlot α) : NoteGeometry α :=
  let (left, right) := a.noteSides n
  let bounds := Bounds.ofCorners ⟨left, y⟩ ⟨right, y + n.size.height⟩
  ⟨bounds, n.label.placeAround bounds.center⟩

/-- A band over all columns, widened for its text. -/
def band (top : α) (b : BandSlot α) : BandGeometry α :=
  let (left, right) := a.columns.span
  let (left, right) :=
    match b.label with
    | some text =>
      let needed := text.size.width + 2 * a.distances.messageLabelPadding
      if right - left < needed then
        let center := Scalar.half (left + right)
        (center - Scalar.half needed, center + Scalar.half needed)
      else (left, right)
    | none => (left, right)
  let bounds := Bounds.ofCorners ⟨left, top⟩ ⟨right, top + b.height⟩
  ⟨bounds, b.label.map (·.placeAround bounds.center)⟩

/-- What is drawn for an event. -/
def event (bars : List (Nat × ActivationGeometry α)) (index : Nat) (slot : Slot α) :
    EventGeometry α :=
  let shape : EventShape α :=
    match slot.kind with
    | .message m => .message (a.message bars index slot.y m)
    | .activate x => .activate x
    | .deactivate x => .deactivate x
    | .note n => .note (a.note slot.y n)
    | .divider b => .divider (a.band (slot.y - Scalar.half b.height) b)
    | .delay b => .delay (a.band slot.y b)
    | .blockStart b => .blockStart b
    | .blockSection b => .blockSection b
    | .blockEnd b => .blockEnd b
  ⟨index, slot.y, slot.isRow, shape⟩

/-! ### Blocks -/

/-- The left and right side of a frame before the frames in it are considered. -/
def ownRange (span : BlockSpan α) : α × α :=
  let padding := a.distances.blockPadding
  let inset := padding + Scalar.ofNat span.subtreeDepth * a.distances.blockIndent
  let (left, right) :=
    match span.columns with
    | some (first, last) => (a.columns.center first - inset, a.columns.center last + inset)
    | none => (a.columns.span.1 - inset, a.columns.span.2 + inset)
  let labelWidth :=
    match span.label with
    | some text => text.size.width + 2 * padding
    | none => 0
  let needed := span.tab.size.width + 2 * padding + labelWidth
  (left, max right (left + needed))

/-- The sides of the frames of blocks, numbered from an index.  Later blocks are placed first, so
that a frame can be widened to those directly in it. -/
def blockRanges (index : Nat) : List (BlockSpan α) → List (α × α)
  | [] => []
  | span :: rest =>
    let later := blockRanges (index + 1) rest
    let inner := ((rest.zip later).filter fun (b, _) => b.parent == some index).map (·.2)
    let indent := a.distances.blockIndent
    let range := inner.foldl
      (fun (range : α × α) (child : α × α) =>
        (min range.1 (child.1 - indent), max range.2 (child.2 + indent)))
      (a.ownRange span)
    range :: later

/-- The height of the head of a block. -/
def blockHeader (span : BlockSpan α) : α :=
  max (max a.distances.blockHeaderHeight span.tab.size.height) (MeasuredText.heightOf span.label)

/-- The frame of a block with given sides. -/
def block (span : BlockSpan α) (range : α × α) : BlockGeometry α :=
  let padding := a.distances.blockPadding
  let header := a.blockHeader span
  let tab := span.tab.placeAt
    ⟨range.1 + padding, span.top + Scalar.half (header - span.tab.size.height)⟩
  { kind := span.kind
    depth := span.depth
    bounds := Bounds.ofCorners ⟨range.1, span.top⟩ ⟨range.2, span.bottom⟩
    tab := tab
    label := span.label.map fun text =>
      text.placeAt
        ⟨tab.bounds.maxX + 2 * padding, span.top + Scalar.half (header - text.size.height)⟩
    sections := span.sections.map fun part =>
      ⟨part.y, part.label.map (·.placeAt ⟨range.1 + padding, part.y⟩)⟩
    startEvent := span.startEvent
    endEvent := span.endEvent }

/-- The frames of all blocks. -/
def blocks : List (BlockGeometry α) :=
  let spans := a.timeline.blocks.toList
  (spans.zip (a.blockRanges 0 spans)).map fun (span, range) => a.block span range

end Assembly

/-- The first two neighbours whose columns overlap. -/
def firstOverlap : List (ParticipantGeometry α) → Option (Ident × Ident)
  | p :: q :: rest =>
    if p.range.overlaps q.range then some (p.id, q.id) else firstOverlap (q :: rest)
  | _ => none

namespace Layout

/-- The diagram in coordinates of its own; no two neighbouring columns may overlap. -/
def assemble (s : Setting α) (roster : Roster α) (t : Timeline α) (c : Columns α) :
    Except (Failure α) (Layout α) :=
  let a : Assembly α := ⟨s, roster, t, c⟩
  let delays := t.delays
  let participants := roster.mapIdx fun column c => a.participant delays column c
  match firstOverlap participants with
  | some (left, right) => .error (.inconsistent (.columnOverlap left right))
  | none =>
    let bars := a.bars
    .ok
      { participants := participants
        events := t.slots.mapIdx fun index slot => a.event bars index slot
        activations := bars.map (·.2)
        blocks := a.blocks }

/-! ### The content of a diagram -/

/-- The smallest box around points. -/
def pathBounds : List (Point α) → List (Bounds α)
  | [] => []
  | p :: rest =>
    [rest.foldl (fun b q => b.merge (Bounds.around q Size.zero)) (Bounds.around p Size.zero)]

/-- The boxes of a participant. -/
def participantBoxes (p : ParticipantGeometry α) : List (Bounds α) :=
  p.header :: (p.footer.toList ++ p.destroyMark.toList ++
    p.lifeline.map fun l => Bounds.ofCorners ⟨l.x, l.startY⟩ ⟨l.x, l.endY⟩)

/-- The boxes of an event. -/
def eventBoxes (e : EventGeometry α) : List (Bounds α) :=
  match e.shape with
  | .message m => pathBounds m.points ++ m.label.toList.map (·.bounds)
  | .note n => [n.bounds]
  | .divider b => b.bounds :: b.label.toList.map (·.bounds)
  | .delay b => b.bounds :: b.label.toList.map (·.bounds)
  | _ => []

/-- The boxes that make up the content of a diagram. -/
def boxes (l : Layout α) : List (Bounds α) :=
  l.participants.flatMap participantBoxes ++ l.activations.map (·.bounds) ++
    l.blocks.map (·.bounds) ++ l.events.flatMap eventBoxes

/-- The smallest box around the content of a diagram. -/
def contentBounds (l : Layout α) : Bounds α :=
  match l.boxes with
  | [] => Bounds.zero
  | b :: rest => rest.foldl Bounds.merge b

end Layout

end Drafting.Sequence
