import Drafting.Declared
import Drafting.Diagnostic
import Drafting.Sequence.Model
import Drafting.Text.Box

/-!
The roster of a sequence diagram: its participants in the order of their columns.

Each name has one column, that of its first declaration.  Participants with a wished position come
first, by that position; ties and the others are in the order of declaration.

* `Column`: a participant with the size of its header.
* `Roster.ofModel`: the columns of a diagram.
* `Roster.diagnostics`: repeated names and impossible lifetimes.
-/

namespace Drafting.Sequence

/-- A participant that owns a column. -/
structure Column (α : Type) where
  /-- The name of the participant. -/
  id : Ident
  /-- The symbol shown. -/
  kind : ParticipantKind
  /-- The text shown. -/
  label : MeasuredText α
  /-- The size of the box around the text. -/
  header : Size α
  /-- The event that creates the participant. -/
  createdAt : Option Nat
  /-- The event that destroys the participant. -/
  destroyedAt : Option Nat
deriving Repr, DecidableEq

/-- Whether a participant may stand to the left of one that is declared later. -/
def Participant.mayPrecede (p q : Participant) : Bool :=
  match p.order, q.order with
  | some a, some b => decide (a ≤ b)
  | none, some _ => false
  | _, none => true

/-- Whether a lifetime fits a number of events: it ends after it begins, and both are events. -/
def Lifetime.fits (l : Lifetime) (events : Nat) : Bool :=
  l.createdAt.all (· < events) && l.destroyedAt.all (· < events) &&
    match l.createdAt, l.destroyedAt with
    | some c, some d => decide (c ≤ d)
    | _, _ => true

/-- The lifetime a participant gets: its own if it fits, otherwise that of the whole diagram. -/
def Lifetime.within (l : Lifetime) (events : Nat) : Lifetime := if l.fits events then l else {}

/-- The columns of a diagram from left to right. -/
abbrev Roster (α : Type) := List (Column α)

/-- The participants that have a column, from left to right. -/
def Model.ordered (m : Model) : List Participant :=
  (Declared.firsts Participant.id m.participants).mergeSort Participant.mayPrecede

namespace Roster

variable {α : Type}

/-- The column of a participant. -/
def columnOf? (roster : Roster α) (id : Ident) : Option Nat :=
  Declared.indexOf? Column.id roster id

variable [Scalar α]

/-- The column of a participant of a diagram. -/
def column (s : Setting α) (events : Nat) (p : Participant) : Column α :=
  let label := s.measured p.displayText s.config.styles.participant none
  let lifetime := p.lifetime.within events
  { id := p.id
    kind := p.kind
    label := label
    header := label.size.pad (Insets.uniform s.config.sequence.participantPadding)
    createdAt := lifetime.createdAt
    destroyedAt := lifetime.destroyedAt }

/-- The columns of a diagram. -/
def ofModel (s : Setting α) (m : Model) : Roster α := m.ordered.map (column s m.events.length)

omit [Scalar α] in
/-- Repeated names in the order of declaration, then impossible lifetimes in
the order of columns. -/
def diagnostics (m : Model) : List (Diagnostic α) :=
  (Declared.repeats Participant.id m.participants).map (.duplicateParticipant ·.id) ++
    (m.ordered.filter fun p => !p.lifetime.fits m.events.length).map fun p =>
      .invalidLifetime p.id p.lifetime m.events.length

/-- The height of the row of headers at the top: that of the largest participant
there from the start. -/
def headerRow (roster : Roster α) : α :=
  Scalar.maximum 0 ((roster.filter (·.createdAt.isNone)).map (·.header.height))

end Roster

end Drafting.Sequence
