import Drafting.Sequence.Columns

/-!
The finished geometry of a sequence diagram.

Every participant and every event has its place; activations and blocks are listed apart, and events
refer to them by position.  `Layout.translate` moves the whole drawing.
-/

namespace Drafting.Sequence

/-- A vertical piece of a lifeline. -/
structure LifelineSegment (α : Type) where
  /-- Where it is. -/
  x : α
  /-- Where it begins. -/
  startY : α
  /-- Where it ends. -/
  endY : α
  /-- Whether it crosses a delay. -/
  dotted : Bool
deriving Repr, BEq, DecidableEq

/-- A participant with its lifeline. -/
structure ParticipantGeometry (α : Type) where
  /-- The name of the participant. -/
  id : Ident
  /-- The symbol shown. -/
  kind : ParticipantKind
  /-- The number of its column from the left. -/
  column : Nat
  /-- Where its lifeline is. -/
  centerX : α
  /-- The room reserved for its column. -/
  range : ColumnRange α
  /-- The box at the head of the lifeline. -/
  header : Bounds α
  /-- The text in the box. -/
  label : TextBox α
  /-- The box at the foot of the lifeline. -/
  footer : Option (Bounds α)
  /-- The lifeline from top to bottom. -/
  lifeline : List (LifelineSegment α)
  /-- The cross where the participant is destroyed. -/
  destroyMark : Option (Bounds α)
deriving Repr, BEq, DecidableEq

/-- The arrow of a message. -/
structure MessageGeometry (α : Type) where
  /-- How it is drawn. -/
  kind : MessageKind
  /-- Its line and head. -/
  style : MessageStyle
  /-- Its points; the head is at the last. -/
  points : List (Point α)
  /-- The text along it. -/
  label : Option (TextBox α)
deriving Repr, BEq, DecidableEq

/-- The box of a note. -/
structure NoteGeometry (α : Type) where
  /-- The box. -/
  bounds : Bounds α
  /-- What it says. -/
  label : TextBox α
deriving Repr, BEq, DecidableEq

/-- A band across the diagram. -/
structure BandGeometry (α : Type) where
  /-- The band. -/
  bounds : Bounds α
  /-- The text in it. -/
  label : Option (TextBox α)
deriving Repr, BEq, DecidableEq

/-- The geometry of an event; activations and blocks are given by their positions. -/
inductive EventShape (α : Type) where
  | message (m : MessageGeometry α)
  | activate (activation : Option Nat)
  | deactivate (activation : Option Nat)
  | note (n : NoteGeometry α)
  | divider (b : BandGeometry α)
  | delay (b : BandGeometry α)
  | blockStart (block : Nat)
  | blockSection (block : Option Nat)
  | blockEnd (block : Option Nat)
deriving Repr, BEq, DecidableEq

/-- An event with its geometry. -/
structure EventGeometry (α : Type) where
  /-- The number of the event. -/
  index : Nat
  /-- Its height in the diagram. -/
  y : α
  /-- Whether it takes a row. -/
  isRow : Bool
  /-- What is drawn for it. -/
  shape : EventShape α
deriving Repr, BEq, DecidableEq

/-- An activation bar. -/
structure ActivationGeometry (α : Type) where
  /-- The participant that is active. -/
  participant : Ident
  /-- How many bars are below it. -/
  depth : Nat
  /-- The bar. -/
  bounds : Bounds α
  /-- The event that opens it. -/
  startEvent : Option Nat
  /-- The event that closes it. -/
  endEvent : Option Nat
deriving Repr, BEq, DecidableEq

/-- The line between two sections of a block. -/
structure SectionGeometry (α : Type) where
  /-- Where it is. -/
  y : α
  /-- The text below it. -/
  label : Option (TextBox α)
deriving Repr, BEq, DecidableEq

/-- The frame of a block. -/
structure BlockGeometry (α : Type) where
  /-- The operator. -/
  kind : String
  /-- How many frames are around it. -/
  depth : Nat
  /-- The frame. -/
  bounds : Bounds α
  /-- The text of the operator. -/
  tab : TextBox α
  /-- The text of the guard. -/
  label : Option (TextBox α)
  /-- Its further sections. -/
  sections : List (SectionGeometry α)
  /-- The event that opens it. -/
  startEvent : Nat
  /-- The event that closes it. -/
  endEvent : Option Nat
deriving Repr, BEq, DecidableEq

/-- The geometry of a sequence diagram. -/
structure Layout (α : Type) where
  /-- The participants from left to right. -/
  participants : List (ParticipantGeometry α)
  /-- The events in the order of time. -/
  events : List (EventGeometry α)
  /-- The activations in the order in which they are opened. -/
  activations : List (ActivationGeometry α)
  /-- The blocks in the order in which they are opened. -/
  blocks : List (BlockGeometry α)
deriving Repr, BEq, DecidableEq

namespace Layout

variable {α : Type}

/-- The participant of a name. -/
def participant? (l : Layout α) (id : Ident) : Option (ParticipantGeometry α) :=
  l.participants.find? (·.id == id)

/-- The events that take rows. -/
def rows (l : Layout α) : List (EventGeometry α) := l.events.filter (·.isRow)

end Layout

/-! ### Moving -/

variable {α : Type} [Scalar α]

/-- Moves a column. -/
def ColumnRange.translate (r : ColumnRange α) (v : Point α) : ColumnRange α :=
  ⟨r.minX + v.x, r.maxX + v.x⟩

/-- Moves a piece of a lifeline. -/
def LifelineSegment.translate (l : LifelineSegment α) (v : Point α) : LifelineSegment α :=
  { l with x := l.x + v.x, startY := l.startY + v.y, endY := l.endY + v.y }

/-- Moves a participant. -/
def ParticipantGeometry.translate (p : ParticipantGeometry α) (v : Point α) :
    ParticipantGeometry α :=
  { p with
    centerX := p.centerX + v.x
    range := p.range.translate v
    header := p.header.translate v
    label := p.label.translate v
    footer := p.footer.map (·.translate v)
    lifeline := p.lifeline.map (·.translate v)
    destroyMark := p.destroyMark.map (·.translate v) }

/-- Moves a message. -/
def MessageGeometry.translate (m : MessageGeometry α) (v : Point α) : MessageGeometry α :=
  { m with points := m.points.map (·.add v), label := m.label.map (·.translate v) }

/-- Moves a note. -/
def NoteGeometry.translate (n : NoteGeometry α) (v : Point α) : NoteGeometry α :=
  ⟨n.bounds.translate v, n.label.translate v⟩

/-- Moves a band. -/
def BandGeometry.translate (b : BandGeometry α) (v : Point α) : BandGeometry α :=
  ⟨b.bounds.translate v, b.label.map (·.translate v)⟩

/-- Moves what is drawn for an event. -/
def EventShape.translate (v : Point α) : EventShape α → EventShape α
  | .message m => .message (m.translate v)
  | .note n => .note (n.translate v)
  | .divider b => .divider (b.translate v)
  | .delay b => .delay (b.translate v)
  | shape => shape

/-- Moves an event. -/
def EventGeometry.translate (e : EventGeometry α) (v : Point α) : EventGeometry α :=
  { e with y := e.y + v.y, shape := e.shape.translate v }

/-- Moves an activation. -/
def ActivationGeometry.translate (a : ActivationGeometry α) (v : Point α) : ActivationGeometry α :=
  { a with bounds := a.bounds.translate v }

/-- Moves a section. -/
def SectionGeometry.translate (s : SectionGeometry α) (v : Point α) : SectionGeometry α :=
  ⟨s.y + v.y, s.label.map (·.translate v)⟩

/-- Moves a block. -/
def BlockGeometry.translate (b : BlockGeometry α) (v : Point α) : BlockGeometry α :=
  { b with
    bounds := b.bounds.translate v
    tab := b.tab.translate v
    label := b.label.map (·.translate v)
    sections := b.sections.map (·.translate v) }

/-- Moves a drawing. -/
def Layout.translate (l : Layout α) (v : Point α) : Layout α :=
  { participants := l.participants.map (·.translate v)
    events := l.events.map (·.translate v)
    activations := l.activations.map (·.translate v)
    blocks := l.blocks.map (·.translate v) }

end Drafting.Sequence
