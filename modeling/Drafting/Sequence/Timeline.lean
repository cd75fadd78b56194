import Drafting.Failure
import Drafting.Sequence.Roster

/-!
The vertical order of a sequence diagram.

A cursor walks down the events.  An event that takes a row is placed below the cursor and moves it
on; activations and blocks are opened and closed on the way and take no rows of their own, the
boundaries of blocks apart.  What is unmatched is mended and reported.

* `Slot`: what an event becomes.
* `State`: the cursor with all that is open.
* `State.step`: one event.
* `Timeline.build`: the whole diagram.
-/

namespace Drafting.Sequence

/-! ### What events become -/

/-- How a message is drawn. -/
inductive MessageKind where
  /-- From one lifeline to another. -/
  | normal
  /-- In a loop back to the same lifeline. -/
  | selfMessage
  /-- Toward nobody. -/
  | lost
  /-- From or toward somebody unknown. -/
  | unresolved
deriving Repr, DecidableEq, Inhabited

/-- The name of a kind of message. -/
def MessageKind.name : MessageKind → String
  | normal => "normal"
  | selfMessage => "self_message"
  | lost => "lost"
  | unresolved => "unresolved"

/-- A message with its ends in columns. -/
structure MessageSlot (α : Type) where
  /-- How it is drawn. -/
  kind : MessageKind
  /-- Its line and head. -/
  style : MessageStyle
  /-- The column of the sender. -/
  source : Option Nat
  /-- The column of the receiver. -/
  target : Option Nat
  /-- The text along it. -/
  label : Option (MeasuredText α)
deriving Repr, DecidableEq

/-- The columns a note belongs to. -/
inductive NoteAnchor where
  /-- To the left of a column. -/
  | leftOf (column : Nat)
  /-- To the right of a column. -/
  | rightOf (column : Nat)
  /-- From one column to another, or over one. -/
  | spanning (first last : Nat)
  /-- Over all columns. -/
  | across
deriving Repr, DecidableEq, Inhabited

/-- A note with its size. -/
structure NoteSlot (α : Type) where
  /-- The columns it belongs to. -/
  anchor : NoteAnchor
  /-- What it says. -/
  label : MeasuredText α
  /-- The size of its box. -/
  size : Size α
deriving Repr, DecidableEq

/-- A divider or a delay with its height. -/
structure BandSlot (α : Type) where
  /-- The height of the band. -/
  height : α
  /-- The text in it. -/
  label : Option (MeasuredText α)
deriving Repr, DecidableEq

/-- What an event becomes. -/
inductive SlotKind (α : Type) where
  | message (m : MessageSlot α)
  | activate (activation : Option Nat)
  | deactivate (activation : Option Nat)
  | note (n : NoteSlot α)
  | divider (b : BandSlot α)
  | delay (b : BandSlot α)
  | blockStart (block : Nat)
  | blockSection (block : Option Nat)
  | blockEnd (block : Option Nat)
deriving Repr, DecidableEq

/-- An event with its height in the diagram. -/
structure Slot (α : Type) where
  /-- Where it is. -/
  y : α
  /-- Whether it takes a row. -/
  isRow : Bool
  /-- What it becomes. -/
  kind : SlotKind α
deriving Repr, DecidableEq

/-- A stretch of time in which a participant is active. -/
structure Activation (α : Type) where
  /-- The column of the participant. -/
  column : Nat
  /-- How many activations of the participant were open before. -/
  depth : Nat
  /-- Where it begins. -/
  startY : α
  /-- Where it ends. -/
  endY : α
  /-- The event that opens it. -/
  startEvent : Option Nat
  /-- The event that closes it. -/
  endEvent : Option Nat
deriving Repr, DecidableEq

/-- A further section of a block. -/
structure Section (α : Type) where
  /-- Where it begins. -/
  y : α
  /-- Its text. -/
  label : Option (MeasuredText α)
deriving Repr, DecidableEq

/-- A range of columns, both ends included. -/
abbrev Hull := Nat × Nat

/-- A block with the columns it touches. -/
structure BlockSpan (α : Type) where
  /-- The operator. -/
  kind : String
  /-- The text of the operator. -/
  tab : MeasuredText α
  /-- The text of the guard. -/
  label : Option (MeasuredText α)
  /-- How many blocks are around it. -/
  depth : Nat
  /-- The block around it. -/
  parent : Option Nat
  /-- Where it begins. -/
  top : α
  /-- Where it ends. -/
  bottom : α
  /-- The columns that its events touch, those of inner blocks included. -/
  columns : Option Hull
  /-- How deeply blocks are nested in it. -/
  subtreeDepth : Nat
  /-- Its further sections. -/
  sections : List (Section α)
  /-- The event that opens it. -/
  startEvent : Nat
  /-- The event that closes it. -/
  endEvent : Option Nat
deriving Repr, DecidableEq

/-- The smallest range with a column added. -/
def Hull.insert (hull : Option Hull) (column : Nat) : Option Hull :=
  match hull with
  | some (first, last) => some (min first column, max last column)
  | none => some (column, column)

/-- The smallest range around two. -/
def Hull.union (h k : Option Hull) : Option Hull :=
  match h, k with
  | some (a, b), some (c, d) => some (min a c, max b d)
  | h, none => h
  | none, k => k

/-! ### The state of the walk -/

/-- The latest row. -/
structure LastRow (α : Type) where
  /-- Where it is. -/
  y : α
  /-- The receiver of its message. -/
  target : Option Nat
deriving Repr, DecidableEq

/-- The state between two events. -/
structure State (α : Type) where
  /-- The lowest point reached. -/
  cursor : α
  /-- The latest row. -/
  lastRow : Option (LastRow α)
  /-- The open activations of each column, the latest first. -/
  running : Array (List Nat)
  /-- Open activations that begin with the next row. -/
  pending : List Nat
  /-- The open blocks, the innermost first. -/
  openBlocks : List Nat
  /-- All activations so far. -/
  activations : Array (Activation α)
  /-- All blocks so far. -/
  blocks : Array (BlockSpan α)
deriving Repr, DecidableEq

variable {α : Type} [Scalar α]

namespace State

/-- The state before the first event. -/
def start (roster : Roster α) : State α :=
  { cursor := roster.headerRow
    lastRow := none
    running := Array.replicate roster.length []
    pending := []
    openBlocks := []
    activations := #[]
    blocks := #[] }

/-- Places a row that needs some room above and below.  A participant created in the row needs room
for its header, and activations that wait for a row begin here. -/
def placeRow (s : Setting α) (roster : Roster α) (st : State α) (index : Nat) (above below : α)
    (target : Option Nat) : α × State α :=
  let halves :=
    (roster.filter (·.createdAt == some index)).map fun c => Scalar.half c.header.height
  let y := st.cursor + s.config.sequence.eventSpacing + Scalar.maximum above halves
  (y,
    { st with
      cursor := y + Scalar.maximum below halves
      lastRow := some ⟨y, target⟩
      pending := []
      activations :=
        st.pending.foldl (fun as a => as.modify a fun x => { x with startY := y }) st.activations })

omit [Scalar α] in
/-- Extends the innermost open block to a column. -/
def touch (st : State α) (column : Nat) : State α :=
  match st.openBlocks with
  | [] => st
  | block :: _ =>
    { st with
      blocks := st.blocks.modify block fun b => { b with columns := Hull.insert b.columns column } }

omit [Scalar α] in
/-- Extends the innermost open block to several columns. -/
def touchAll (st : State α) (columns : List Nat) : State α := columns.foldl touch st

/-- The lowest end of the activations opened in a column above a depth and after a given one. -/
def nestedEnd (activations : Array (Activation α)) (activation : Nat) (column depth : Nat)
    (floor : α) : α :=
  Scalar.maximum floor
    (((activations.toList.drop (activation + 1)).filter fun a =>
      a.column == column && decide (depth < a.depth)).map (·.endY))

/-- Ends an activation at a height or below it: it has a least height and covers
all that it contains. -/
def closeActivation (s : Setting α) (st : State α) (activation : Nat) (floor : α)
    (endEvent : Option Nat) : α × State α :=
  match st.activations[activation]? with
  | none => (floor, st)
  | some a =>
    let low := nestedEnd st.activations activation a.column a.depth floor
    let endY := max low (a.startY + s.config.sequence.activationMinHeight)
    (endY,
      { st with
        cursor := max st.cursor endY
        activations := st.activations.modify activation fun a =>
          { a with endY := endY, endEvent := endEvent } })

omit [Scalar α] in
/-- Ends the innermost open block and adds what it covers to the block around it. -/
def closeBlock (st : State α) (bottom : α) (endEvent : Option Nat) : Option Nat × State α :=
  match st.openBlocks with
  | [] => (none, st)
  | block :: rest =>
    let blocks := st.blocks.modify block fun b => { b with bottom := bottom, endEvent := endEvent }
    let blocks :=
      match st.blocks[block]? with
      | none => blocks
      | some b =>
        match b.parent with
        | none => blocks
        | some parent =>
          blocks.modify parent fun p =>
            { p with
              subtreeDepth := max p.subtreeDepth (b.subtreeDepth + 1)
              columns := Hull.union p.columns b.columns }
    (some block, { st with openBlocks := rest, blocks := blocks })

/-! ### One event -/

/-- What an event yields: the next state, its slot and the faults found. -/
structure Outcome (α : Type) where
  /-- The state after the event. -/
  state : State α
  /-- What the event becomes. -/
  slot : Slot α
  /-- The faults found. -/
  diagnostics : List (Diagnostic α)

omit [Scalar α] in
/-- The references of an event that name nobody. -/
def unknown (roster : Roster α) (index : Nat) (event : Event) : List (Diagnostic α) :=
  (event.participants.filter fun id => (roster.columnOf? id).isNone).map
    (.participantNotFound index)

/-- How a message with given ends is drawn. -/
def messageKind (m : Message) (source target : Option Nat) : MessageKind :=
  match source, m.target, target with
  | some _, some _, some _ => if m.isSelf then .selfMessage else .normal
  | some _, none, _ => .lost
  | _, _, _ => .unresolved

/-- A message is sent. -/
def message (s : Setting α) (roster : Roster α) (st : State α) (index : Nat) (m : Message) :
    State α × Slot α :=
  let source := roster.columnOf? m.source
  let target := m.target.bind roster.columnOf?
  let kind := messageKind m source target
  let label := m.label.map fun text =>
    s.measured text s.config.styles.message s.config.sequence.maxMessageWidth
  let above :=
    match label with
    | some l => l.size.height + s.config.sequence.messageLabelPadding
    | none => 0
  let below :=
    match kind with
    | .selfMessage => s.config.sequence.selfMessageHeight
    | _ => 0
  let st := st.touchAll (source.toList ++ target.toList)
  let (y, st) := st.placeRow s roster index above below target
  (st, ⟨y, true, .message ⟨kind, m.style, source, target, label⟩⟩)

/-- A participant becomes active: at the latest row if that is a message to it,
else at the next row. -/
def activate (roster : Roster α) (st : State α) (index : Nat) (id : Ident) : State α × Slot α :=
  match roster.columnOf? id with
  | none => (st, ⟨st.cursor, false, .activate none⟩)
  | some column =>
    let st := st.touch column
    let stack := st.running.getD column []
    let activation := st.activations.size
    let received := st.lastRow.bind fun row =>
      if row.target == some column then some row.y else none
    let y := received.getD st.cursor
    let next :=
      { st with
        activations := st.activations.push
          { column := column, depth := stack.length, startY := y, endY := y
            startEvent := some index, endEvent := none }
        pending := if received.isNone then st.pending ++ [activation] else st.pending
        running := st.running.modify column (activation :: ·) }
    (next, ⟨st.cursor, false, .activate (some activation)⟩)

/-- The latest activation of a participant ends; without one, an empty one is noted. -/
def deactivate (s : Setting α) (roster : Roster α) (st : State α) (index : Nat) (id : Ident) :
    State α × Slot α × List (Diagnostic α) :=
  match roster.columnOf? id with
  | none => (st, ⟨st.cursor, false, .deactivate none⟩, [])
  | some column =>
    let st := st.touch column
    match st.running.getD column [] with
    | [] =>
      let activation := st.activations.size
      let next :=
        { st with
          activations := st.activations.push
            { column := column, depth := 0, startY := st.cursor, endY := st.cursor
              startEvent := none, endEvent := some index } }
      (next, ⟨st.cursor, false, .deactivate (some activation)⟩, [.activationUnderflow index id])
    | activation :: rest =>
      let st :=
        if st.pending.contains activation then
          { st with
            pending := st.pending.erase activation
            activations := st.activations.modify activation fun a =>
              { a with startY := st.cursor } }
        else st
      let floor := (st.lastRow.map (·.y)).getD st.cursor
      let st := { st with running := st.running.modify column fun _ => rest }
      let (y, st) := st.closeActivation s activation floor (some index)
      (st, ⟨y, false, .deactivate (some activation)⟩, [])

omit [Scalar α] in
/-- The columns a placement means; all of them when it names somebody unknown. -/
def noteAnchor (roster : Roster α) : NotePlacement → NoteAnchor
  | .leftOf id => ((roster.columnOf? id).map .leftOf).getD .across
  | .rightOf id => ((roster.columnOf? id).map .rightOf).getD .across
  | .spanning id other =>
    let first := roster.columnOf? id
    let second :=
      match other with
      | some other => roster.columnOf? other
      | none => first
    match first, second with
    | some a, some b => .spanning (min a b) (max a b)
    | _, _ => .across
  | .across => .across

/-- The columns a note touches, in a diagram with a number of columns. -/
def NoteAnchor.columns (count : Nat) : NoteAnchor → List Nat
  | .leftOf column => [column]
  | .rightOf column => [column]
  | .spanning first last => [first, last]
  | .across => if count = 0 then [] else [0, count - 1]

/-- A note. -/
def note (s : Setting α) (roster : Roster α) (st : State α) (index : Nat) (n : Note) :
    State α × Slot α :=
  let anchor := noteAnchor roster n.placement
  let label := s.measured n.text s.config.styles.note none
  let padding := s.config.sequence.notePadding
  let size : Size α := ⟨label.size.width + 2 * padding, label.size.height + 2 * padding⟩
  let st := st.touchAll (NoteAnchor.columns roster.length anchor)
  let (y, st) := st.placeRow s roster index 0 size.height none
  (st, ⟨y, true, .note ⟨anchor, label, size⟩⟩)

/-- The text of a divider, a delay or a section. -/
def bandLabel (s : Setting α) (text : Option String) : Option (MeasuredText α) :=
  text.map fun text => s.measured text s.config.styles.message none

/-- A divider: a line with as much room above as below. -/
def divider (s : Setting α) (roster : Roster α) (st : State α) (index : Nat)
    (text : Option String) : State α × Slot α :=
  let label := bandLabel s text
  let needed :=
    match label with
    | some l => l.size.height + 2 * s.config.sequence.messageLabelPadding
    | none => 0
  let height := max s.config.sequence.dividerHeight needed
  let (y, st) := st.placeRow s roster index (Scalar.half height) (Scalar.half height) none
  (st, ⟨y, true, .divider ⟨height, label⟩⟩)

/-- A delay: a band below the row. -/
def delay (s : Setting α) (roster : Roster α) (st : State α) (index : Nat)
    (text : Option String) : State α × Slot α :=
  let label := bandLabel s text
  let height := max s.config.sequence.delayHeight (MeasuredText.heightOf label)
  let (y, st) := st.placeRow s roster index 0 height none
  (st, ⟨y, true, .delay ⟨height, label⟩⟩)

/-- A block begins. -/
def blockStart (s : Setting α) (roster : Roster α) (st : State α) (index : Nat)
    (b : BlockHeader) : State α × Slot α :=
  let style := s.config.styles.message
  let tab := s.measured b.kind { style with bold := true } none
  let label := b.label.map fun text => s.measured text style none
  let header :=
    max (max s.config.sequence.blockHeaderHeight tab.size.height) (MeasuredText.heightOf label)
  let (y, st) := st.placeRow s roster index 0 header none
  let block := st.blocks.size
  let next :=
    { st with
      blocks := st.blocks.push
        { kind := b.kind, tab := tab, label := label
          depth := st.openBlocks.length, parent := st.openBlocks.head?
          top := y, bottom := y + header
          columns := none, subtreeDepth := 0, sections := []
          startEvent := index, endEvent := none }
      openBlocks := block :: st.openBlocks }
  (next, ⟨y, true, .blockStart block⟩)

/-- The innermost block continues with another section. -/
def blockSection (s : Setting α) (roster : Roster α) (st : State α) (index : Nat)
    (text : Option String) : State α × Slot α × List (Diagnostic α) :=
  match st.openBlocks with
  | [] => (st, ⟨st.cursor, false, .blockSection none⟩, [.strayBlockSection index])
  | block :: _ =>
    let label := bandLabel s text
    let (y, st) := st.placeRow s roster index 0 (MeasuredText.heightOf label) none
    let next :=
      { st with
        blocks := st.blocks.modify block fun b =>
          { b with sections := b.sections ++ [⟨y, label⟩] } }
    (next, ⟨y, true, .blockSection (some block)⟩, [])

/-- The innermost block ends. -/
def blockEnd (s : Setting α) (roster : Roster α) (st : State α) (index : Nat) :
    State α × Slot α × List (Diagnostic α) :=
  match st.openBlocks with
  | [] => (st, ⟨st.cursor, false, .blockEnd none⟩, [.strayBlockEnd index])
  | _ =>
    let (y, st) := st.placeRow s roster index 0 0 none
    let (block, st) := st.closeBlock y (some index)
    (st, ⟨y, true, .blockEnd block⟩, [])

/-- One event. -/
def step (s : Setting α) (roster : Roster α) (st : State α) (index : Nat) (event : Event) :
    Outcome α :=
  let unknown := unknown roster index event
  match event with
  | .message m => let (st, slot) := st.message s roster index m; ⟨st, slot, unknown⟩
  | .activate id => let (st, slot) := st.activate roster index id; ⟨st, slot, unknown⟩
  | .deactivate id =>
    let (st, slot, faults) := st.deactivate s roster index id
    ⟨st, slot, unknown ++ faults⟩
  | .note n => let (st, slot) := st.note s roster index n; ⟨st, slot, unknown⟩
  | .divider text => let (st, slot) := st.divider s roster index text; ⟨st, slot, unknown⟩
  | .delay text => let (st, slot) := st.delay s roster index text; ⟨st, slot, unknown⟩
  | .blockStart b => let (st, slot) := st.blockStart s roster index b; ⟨st, slot, unknown⟩
  | .blockSection text =>
    let (st, slot, faults) := st.blockSection s roster index text
    ⟨st, slot, unknown ++ faults⟩
  | .blockEnd =>
    let (st, slot, faults) := st.blockEnd s roster index
    ⟨st, slot, unknown ++ faults⟩

/-! ### All events -/

/-- Walks the events, numbered from an index. -/
def run (s : Setting α) (roster : Roster α) (st : State α) (index : Nat) :
    List Event → State α × List (Slot α) × List (Diagnostic α)
  | [] => (st, [], [])
  | event :: rest =>
    let out := st.step s roster index event
    let (st, slots, faults) := run s roster out.state (index + 1) rest
    (st, out.slot :: slots, out.diagnostics ++ faults)

/-- Ends the activations that are still open, column by column and the latest first. -/
def closeActivations (s : Setting α) (st : State α) : State α :=
  st.running.foldl
    (fun st stack =>
      stack.foldl (fun st activation => (st.closeActivation s activation st.cursor none).2) st)
    st

/-- Ends the blocks that are still open, each a row below the one in it. -/
def closeBlocks (s : Setting α) (st : State α) : State α :=
  st.openBlocks.foldl
    (fun st _ =>
      let bottom := st.cursor + s.config.sequence.eventSpacing
      ({ st with cursor := bottom }.closeBlock bottom none).2)
    st

/-- Ends all that is still open after the last event. -/
def finish (s : Setting α) (st : State α) : State α :=
  let begun :=
    { st with
      pending := []
      activations := st.pending.foldl
        (fun as a => as.modify a fun x => { x with startY := st.cursor }) st.activations }
  (begun.closeActivations s).closeBlocks s

omit [Scalar α] in
/-- The activations and blocks that are open after the last event. -/
def unclosed (roster : Roster α) (st : State α) : List (Diagnostic α) :=
  (roster.zip st.running.toList).flatMap (fun (c, stack) =>
    stack.map fun _ => .unclosedActivation c.id) ++
    st.openBlocks.map fun _ => .unclosedBlock

end State

/-! ### The finished timeline -/

/-- The vertical order of a diagram. -/
structure Timeline (α : Type) where
  /-- The events. -/
  slots : List (Slot α)
  /-- The activations in the order in which they are opened. -/
  activations : Array (Activation α)
  /-- The blocks in the order in which they are opened. -/
  blocks : Array (BlockSpan α)
  /-- The height of the row of headers. -/
  headerRow : α
  /-- Where lifelines end. -/
  lifelineBottom : α
  /-- The faults found on the way. -/
  diagnostics : List (Diagnostic α)
deriving Repr

namespace Timeline

omit [Scalar α] in
/-- The slot of an activation event moved to where its activation begins or ends. -/
def settle (activations : Array (Activation α)) (slot : Slot α) : Slot α :=
  match slot.kind with
  | .activate (some a) => { slot with y := ((activations[a]?).map (·.startY)).getD slot.y }
  | .deactivate (some a) => { slot with y := ((activations[a]?).map (·.endY)).getD slot.y }
  | _ => slot

/-- The vertical order of a diagram, not yet checked. -/
def ofModel (s : Setting α) (roster : Roster α) (m : Model) : Timeline α :=
  let (st, slots, faults) := (State.start roster).run s roster 0 m.events
  let last := st.finish s
  { slots := slots.map (settle last.activations)
    activations := last.activations
    blocks := last.blocks
    headerRow := roster.headerRow
    lifelineBottom := last.cursor + s.config.sequence.eventSpacing
    diagnostics := faults ++ st.unclosed roster }

omit [Scalar α] in
/-- The row an event takes, if it takes one. -/
def row? (t : Timeline α) (index : Nat) : Option α :=
  match t.slots[index]? with
  | some slot => if slot.isRow then some slot.y else none
  | none => none

omit [Scalar α] in
/-- Where a created participant appears. -/
def creationY (t : Timeline α) (c : Column α) : Option α := c.createdAt.bind t.row?

omit [Scalar α] in
/-- Where a destroyed participant ends. -/
def destroyY (t : Timeline α) (c : Column α) : Option α := c.destroyedAt.bind t.row?

/-- The top and the bottom of every delay. -/
def delays (t : Timeline α) : List (α × α) :=
  t.slots.filterMap fun slot =>
    match slot.kind with
    | .delay band => some (slot.y, slot.y + band.height)
    | _ => none

/-- The first event whose row does not lie below the row before it. -/
def firstUnordered (previous : Option α) (index : Nat) : List (Slot α) → Option (Nat × α)
  | [] => none
  | slot :: rest =>
    if !slot.isRow then firstUnordered previous (index + 1) rest
    else if previous.any fun p => decide (slot.y ≤ p) then some (index, slot.y)
    else firstUnordered (some slot.y) (index + 1) rest

/-- The vertical order of a diagram; every row must lie below the row before it. -/
def build (s : Setting α) (roster : Roster α) (m : Model) : Except (Failure α) (Timeline α) :=
  let t := ofModel s roster m
  match firstUnordered none 0 t.slots with
  | some (event, y) => .error (.inconsistent (.rowOrder event y))
  | none => .ok t

end Timeline

/-- How deeply blocks are nested among events, of which some are open already. -/
def nestingFrom (depth deepest : Nat) : List Event → Nat
  | [] => deepest
  | .blockStart _ :: rest => nestingFrom (depth + 1) (max deepest (depth + 1)) rest
  | .blockEnd :: rest => nestingFrom (depth - 1) deepest rest
  | _ :: rest => nestingFrom depth deepest rest

/-- How deeply the blocks of a diagram are nested. -/
def Model.nestingDepth (m : Model) : Nat := nestingFrom 0 0 m.events

end Drafting.Sequence
