import Drafting.Ident

/-!
Sequence diagrams: participants and the events between them, in the order of time.

Events refer to participants by name.  Whether a name is declared is not a matter of the model: the
layout reports the ones that are not.
-/

namespace Drafting.Sequence

/-- The symbol shown for a participant. -/
inductive ParticipantKind where
  | participant | actor | boundary | control | entity | database | collections | queue
deriving Repr, DecidableEq, Inhabited

/-- The name of a participant kind. -/
def ParticipantKind.name : ParticipantKind → String
  | participant => "participant"
  | actor => "actor"
  | boundary => "boundary"
  | control => "control"
  | entity => "entity"
  | database => "database"
  | collections => "collections"
  | queue => "queue"

/-- The participant kinds. -/
def ParticipantKind.all : List ParticipantKind :=
  [participant, actor, boundary, control, entity, database, collections, queue]

/-- The events between which a participant exists; it is there from the start, or to the end,
when an index is absent. -/
structure Lifetime where
  /-- The event that creates the participant. -/
  createdAt : Option Nat := none
  /-- The event that destroys the participant. -/
  destroyedAt : Option Nat := none
deriving Repr, DecidableEq, Inhabited

/-- A participant, which owns one lifeline. -/
structure Participant where
  /-- The name events refer to. -/
  id : Ident
  /-- The text shown instead of the name. -/
  label : Option String := none
  /-- The symbol shown. -/
  kind : ParticipantKind := .participant
  /-- The wished position among the columns, smaller values further left. -/
  order : Option Int := none
  /-- When the participant exists. -/
  lifetime : Lifetime := {}
deriving Repr, DecidableEq, Inhabited

/-- The text shown for a participant. -/
def Participant.displayText (p : Participant) : String := p.label.getD p.id

/-- The line and the head of a message. -/
inductive MessageStyle where
  /-- A solid line with a filled head. -/
  | synchronous
  /-- A solid line with an open head. -/
  | asynchronous
  /-- A dashed line with an open head. -/
  | reply
deriving Repr, DecidableEq, Inhabited

/-- The name of a message style. -/
def MessageStyle.name : MessageStyle → String
  | synchronous => "synchronous"
  | asynchronous => "asynchronous"
  | reply => "reply"

/-- The message styles. -/
def MessageStyle.all : List MessageStyle := [synchronous, asynchronous, reply]

/-- A message.  Without a receiver it is lost. -/
structure Message where
  /-- The sender. -/
  source : Ident
  /-- The receiver. -/
  target : Option Ident
  /-- The text along the arrow. -/
  label : Option String := none
  /-- How the arrow is drawn. -/
  style : MessageStyle := .synchronous
deriving Repr, DecidableEq, Inhabited

/-- Whether a message goes back to its sender. -/
def Message.isSelf (m : Message) : Bool := m.target == some m.source

/-- Where a note stands. -/
inductive NotePlacement where
  /-- To the left of a lifeline. -/
  | leftOf (id : Ident)
  /-- To the right of a lifeline. -/
  | rightOf (id : Ident)
  /-- Over one lifeline, or from the first to the second. -/
  | spanning (id : Ident) (other : Option Ident)
  /-- Over all lifelines. -/
  | across
deriving Repr, DecidableEq, Inhabited

/-- The participants a placement refers to. -/
def NotePlacement.participants : NotePlacement → List Ident
  | leftOf id => [id]
  | rightOf id => [id]
  | spanning id other => id :: other.toList
  | across => []

/-- A note, which takes a row of its own. -/
structure Note where
  /-- Where it stands. -/
  placement : NotePlacement
  /-- What it says. -/
  text : String
deriving Repr, DecidableEq, Inhabited

/-- The header of a block of events. -/
structure BlockHeader where
  /-- The operator in the corner of the frame. -/
  kind : String
  /-- The guard beside the operator. -/
  label : Option String := none
deriving Repr, DecidableEq, Inhabited

/-- One entry of the timeline. -/
inductive Event where
  /-- A message is sent. -/
  | message (m : Message)
  /-- A participant becomes active. -/
  | activate (id : Ident)
  /-- The latest activation of a participant ends. -/
  | deactivate (id : Ident)
  /-- A note. -/
  | note (n : Note)
  /-- A line across the diagram. -/
  | divider (label : Option String)
  /-- A gap in time. -/
  | delay (label : Option String)
  /-- A block begins. -/
  | blockStart (header : BlockHeader)
  /-- The innermost block continues with another section. -/
  | blockSection (label : Option String)
  /-- The innermost block ends. -/
  | blockEnd
deriving Repr, DecidableEq, Inhabited

/-- The participants an event refers to. -/
def Event.participants : Event → List Ident
  | message m => m.source :: m.target.toList
  | activate id => [id]
  | deactivate id => [id]
  | note n => n.placement.participants
  | _ => []

/-- A sequence diagram. -/
structure Model where
  /-- The participants in the order of their declaration. -/
  participants : List Participant := []
  /-- The events in the order of time. -/
  events : List Event := []
deriving Repr, DecidableEq, Inhabited

namespace Model

/-- The number of elements that counts against the size limit. -/
def elementCount (m : Model) : Nat := m.participants.length + m.events.length

/-- Declares a further participant. -/
def addParticipant (m : Model) (p : Participant) : Model :=
  { m with participants := m.participants ++ [p] }

/-- Appends a further event. -/
def addEvent (m : Model) (e : Event) : Model := { m with events := m.events ++ [e] }

end Model

end Drafting.Sequence
