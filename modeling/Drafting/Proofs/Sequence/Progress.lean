import Mathlib
import Drafting.Proofs.Config
import Drafting.Sequence.Timeline

/-!
The walk down the events of a sequence diagram.

Blocks are opened and closed on the way, but they never change where the next row lies nor when
activations begin and end.  What is left without them is the progress of the walk, and an event can
do only five things to it.

* `Progress`: the state of the walk without its blocks.
* `Progress.Step`: what an event can do.
* `State.step_progress`: every event does one of these things.
* `State.run_induction`, `State.run_events_induction`: what every step, or every event, keeps holds
  after all events.
* `State.activations_finish`: what becomes of the activations after the last event.
-/

namespace Drafting.Sequence

variable {α : Type}

/-- The state of the walk without its blocks. -/
structure Progress (α : Type) where
  /-- The lowest point reached. -/
  cursor : α
  /-- The latest row. -/
  lastRow : Option (LastRow α)
  /-- The open activations of each column, the latest first. -/
  running : Array (List Nat)
  /-- Open activations that begin with the next row. -/
  pending : List Nat
  /-- All activations so far. -/
  activations : Array (Activation α)

/-- The progress of the walk. -/
def State.progress (st : State α) : Progress α :=
  ⟨st.cursor, st.lastRow, st.running, st.pending, st.activations⟩

/-- The receiver of a message. -/
def SlotKind.target? : SlotKind α → Option Nat
  | .message m => m.target
  | _ => none

/-- Whether an event becomes the beginning or the end of an activation. -/
def SlotKind.ofActivation : SlotKind α → Bool
  | .activate _ => true
  | .deactivate _ => true
  | _ => false

namespace Progress

/-! ### What can happen -/

/-- The activations once those that wait have begun. -/
def begun (p : Progress α) (y : α) : Array (Activation α) :=
  p.pending.foldl (fun as a => as.modify a fun x => { x with startY := y }) p.activations

/-- A row is placed. -/
def place (p : Progress α) (y bottom : α) (target : Option Nat) : Progress α :=
  { p with cursor := bottom, lastRow := some ⟨y, target⟩, pending := [], activations := p.begun y }

/-- Where the latest row is, if it is a message to a column. -/
def received (p : Progress α) (column : Nat) : Option α :=
  p.lastRow.bind fun row => if row.target == some column then some row.y else none

/-- An activation is opened. -/
def opened (p : Progress α) (index column : Nat) : Progress α :=
  let y := (p.received column).getD p.cursor
  { p with
    activations := p.activations.push
      { column := column, depth := (p.running.getD column []).length, startY := y, endY := y
        startEvent := some index, endEvent := none }
    pending := if (p.received column).isNone then p.pending ++ [p.activations.size] else p.pending
    running := p.running.modify column (p.activations.size :: ·) }

/-- An end without an activation is noted. -/
def strayEnd (p : Progress α) (index column : Nat) : Progress α :=
  { p with
    activations := p.activations.push
      { column := column, depth := 0, startY := p.cursor, endY := p.cursor
        startEvent := none, endEvent := some index } }

/-- An activation begins at the cursor if it still waits. -/
def roused (p : Progress α) (activation : Nat) : Progress α :=
  if p.pending.contains activation then
    { p with
      pending := p.pending.erase activation
      activations := p.activations.modify activation fun a => { a with startY := p.cursor } }
  else p

/-- An activation leaves its column. -/
def popped (p : Progress α) (column : Nat) (rest : List Nat) : Progress α :=
  { p with running := p.running.modify column fun _ => rest }

/-- Where the latest row is, or the cursor. -/
def floor (p : Progress α) : α := (p.lastRow.map (·.y)).getD p.cursor

variable [Scalar α]

/-- Where an activation ends that is closed at a height or below it. -/
def endOf (s : Setting α) (p : Progress α) (activation : Nat) (a : Activation α) (floor : α) : α :=
  max (State.nestedEnd p.activations activation a.column a.depth floor)
    (a.startY + s.config.sequence.activationMinHeight)

/-- An activation ends at a height or below it. -/
def ended (s : Setting α) (p : Progress α) (activation : Nat) (floor : α) (endEvent : Option Nat) :
    Progress α :=
  match p.activations[activation]? with
  | none => p
  | some a =>
    { p with
      cursor := max p.cursor (p.endOf s activation a floor)
      activations := p.activations.modify activation fun x =>
        { x with endY := p.endOf s activation a floor, endEvent := endEvent } }

/-- The latest activation of a column is closed. -/
def closed (s : Setting α) (p : Progress α) (index column activation : Nat) (rest : List Nat) :
    Progress α :=
  ((p.roused activation).popped column rest).ended s activation p.floor (some index)

/-- The activations that still wait begin at the cursor, and all that are open end, column by column
and the latest first. -/
def finished (s : Setting α) (p : Progress α) : Progress α :=
  p.running.toList.flatten.foldl (fun q activation => q.ended s activation q.cursor none)
    { p with pending := [], activations := p.begun p.cursor }

/-- What an event with a given index can do in a diagram with a number of columns. -/
inductive Step (s : Setting α) (count index : Nat) (p : Progress α) : Slot α → Progress α → Prop
  /-- It takes a row, with some room above and below. -/
  | row {above below : α} {kind : SlotKind α} (habove : 0 ≤ above) (hbelow : 0 ≤ below)
      (hkind : kind.ofActivation = false) :
      Step s count index p ⟨p.cursor + s.config.sequence.eventSpacing + above, true, kind⟩
        (p.place (p.cursor + s.config.sequence.eventSpacing + above)
          (p.cursor + s.config.sequence.eventSpacing + above + below) kind.target?)
  /-- It concerns somebody unknown, or a block that is not open. -/
  | nothing {kind : SlotKind α} : Step s count index p ⟨p.cursor, false, kind⟩ p
  /-- It opens an activation. -/
  | opens {column : Nat} (hcolumn : column < count) :
      Step s count index p ⟨p.cursor, false, .activate (some p.activations.size)⟩
        (p.opened index column)
  /-- It ends an activation that was never opened. -/
  | strayEnds {column : Nat} (hcolumn : column < count) (hnone : p.running.getD column [] = []) :
      Step s count index p ⟨p.cursor, false, .deactivate (some p.activations.size)⟩
        (p.strayEnd index column)
  /-- It closes the latest activation of a column. -/
  | closes {column activation : Nat} {rest : List Nat} {y : α} (hcolumn : column < count)
      (hrunning : p.running.getD column [] = activation :: rest) :
      Step s count index p ⟨y, false, .deactivate (some activation)⟩
        (p.closed s index column activation rest)

end Progress

/-! ### Activations -/

namespace Progress

/-- Where an activation begins if those that wait begin at a height. -/
def top (p : Progress α) (y : α) (i : Nat) (a : Activation α) : α :=
  if i ∈ p.pending then y else a.startY

lemma getElem?_begun (p : Progress α) (y : α) (i : Nat) :
    (p.begun y)[i]? = p.activations[i]?.map fun a => { a with startY := p.top y i a } := by
  simp only [begun, top]
  generalize p.activations = activations
  induction p.pending generalizing activations with
  | nil => simp
  | cons k pending ih =>
      rw [List.foldl_cons, ih, Array.getElem?_modify]
      by_cases hk : k = i
      · subst hk
        cases activations[k]? <;> simp
      · simp [hk, Ne.symm hk]

lemma getElem?_roused (p : Progress α) (k i : Nat) :
    (p.roused k).activations[i]? = if k = i then
      p.activations[i]?.map fun a => { a with startY := p.top p.cursor i a }
      else p.activations[i]? := by
  rw [roused]
  by_cases hk : k = i
  · subst hk
    rw [if_pos rfl]
    split
    · next hpending =>
        rw [List.contains_iff_mem] at hpending
        simp [top, hpending, Array.getElem?_modify]
    · next hpending =>
        rw [List.contains_iff_mem] at hpending
        simp [top, hpending]
  · rw [if_neg hk]
    split
    · simp [Array.getElem?_modify, hk]
    · rfl

lemma pending_roused (p : Progress α) (k : Nat) : (p.roused k).pending = p.pending.erase k := by
  rw [roused]
  split
  · rfl
  · next hpending =>
      rw [List.contains_iff_mem] at hpending
      exact (List.erase_of_not_mem hpending).symm

lemma running_roused (p : Progress α) (k : Nat) : (p.roused k).running = p.running := by
  rw [roused]
  split <;> rfl

lemma cursor_roused (p : Progress α) (k : Nat) : (p.roused k).cursor = p.cursor := by
  rw [roused]
  split <;> rfl

lemma lastRow_roused (p : Progress α) (k : Nat) : (p.roused k).lastRow = p.lastRow := by
  rw [roused]
  split <;> rfl

section Ending

variable [Scalar α] {s : Setting α}

lemma getElem?_ended (p : Progress α) (k : Nat) (floor : α) (endEvent : Option Nat) (i : Nat) :
    (p.ended s k floor endEvent).activations[i]? = if k = i then p.activations[i]?.map fun a =>
      { a with endY := p.endOf s k a floor, endEvent := endEvent } else p.activations[i]? := by
  rw [ended]
  split
  · next hnone =>
      by_cases hk : k = i
      · rw [if_pos hk, ← hk, hnone, Option.map_none]
      · rw [if_neg hk]
  · next a ha =>
      rw [Array.getElem?_modify]
      by_cases hk : k = i
      · rw [if_pos hk, if_pos hk, ← hk, ha, Option.map_some, Option.map_some]
      · rw [if_neg hk, if_neg hk]

variable (p : Progress α) (index column k : Nat) (rest : List Nat)

lemma pending_ended (floor : α) (endEvent : Option Nat) :
    (p.ended s k floor endEvent).pending = p.pending := by
  rw [ended]
  split <;> rfl

lemma running_ended (floor : α) (endEvent : Option Nat) :
    (p.ended s k floor endEvent).running = p.running := by
  rw [ended]
  split <;> rfl

lemma lastRow_ended (floor : α) (endEvent : Option Nat) :
    (p.ended s k floor endEvent).lastRow = p.lastRow := by
  rw [ended]
  split <;> rfl

lemma pending_closed : (p.closed s index column k rest).pending = p.pending.erase k := by
  rw [closed, pending_ended, popped, pending_roused]

lemma running_closed :
    (p.closed s index column k rest).running = p.running.modify column fun _ => rest := by
  rw [closed, running_ended, popped, running_roused]

lemma lastRow_closed : (p.closed s index column k rest).lastRow = p.lastRow := by
  rw [closed, lastRow_ended, popped, lastRow_roused]

end Ending

end Progress

/-! ### What does happen -/

namespace State

section Blocks

variable (st : State α)

@[simp]
lemma progress_touch (column : Nat) : (st.touch column).progress = st.progress := by
  rw [touch]
  split <;> rfl

@[simp]
lemma progress_touchAll (columns : List Nat) : (st.touchAll columns).progress = st.progress := by
  rw [touchAll]
  induction columns generalizing st with
  | nil => rfl
  | cons column columns ih => rw [List.foldl_cons, ih, progress_touch]

@[simp]
lemma progress_closeBlock (bottom : α) (endEvent : Option Nat) :
    (st.closeBlock bottom endEvent).2.progress = st.progress := by
  rw [closeBlock]
  split <;> rfl

end Blocks

lemma columnOf?_lt {roster : Roster α} {id : Ident} {column : Nat}
    (h : roster.columnOf? id = some column) : column < roster.length := by
  rw [Roster.columnOf?, Declared.indexOf?, List.findIdx?_eq_some_iff_findIdx_eq] at h
  exact h.1

variable [Scalar α] {s : Setting α} {roster : Roster α} {st : State α} {index : Nat}

lemma progress_closeActivation (activation : Nat) (floor : α) (endEvent : Option Nat) :
    (st.closeActivation s activation floor endEvent).2.progress =
      st.progress.ended s activation floor endEvent := by
  rw [closeActivation, Progress.ended, show st.progress.activations = st.activations from rfl]
  cases st.activations[activation]? <;> rfl

/-- Ending what is open in terms of the progress. -/
lemma progress_closeActivations (st : State α) :
    (st.closeActivations s).progress =
      st.running.toList.flatten.foldl (fun q activation => q.ended s activation q.cursor none)
        st.progress := by
  have hcolumn : ∀ (stack : List Nat) (st : State α),
      (stack.foldl (fun st activation => (st.closeActivation s activation st.cursor none).2)
        st).progress =
      stack.foldl (fun q activation => q.ended s activation q.cursor none) st.progress := by
    intro stack
    induction stack with
    | nil => exact fun st => rfl
    | cons activation stack ih =>
        intro st
        rw [List.foldl_cons, List.foldl_cons, ih, progress_closeActivation]
        rfl
  rw [closeActivations, ← Array.foldl_toList]
  generalize st.running.toList = columns
  induction columns generalizing st with
  | nil => rfl
  | cons column columns ih =>
      rw [List.foldl_cons, ih, hcolumn, List.flatten_cons, List.foldl_append]

lemma activations_closeBlocks (st : State α) : (st.closeBlocks s).activations = st.activations := by
  rw [closeBlocks]
  generalize st.openBlocks = openBlocks
  induction openBlocks generalizing st with
  | nil => rfl
  | cons block openBlocks ih =>
      rw [List.foldl_cons, ih]
      exact congrArg Progress.activations (progress_closeBlock _ _ none)

/-- The activations at the end of the walk. -/
lemma activations_finish (st : State α) :
    (st.finish s).activations = (st.progress.finished s).activations := by
  rw [finish, activations_closeBlocks]
  exact congrArg Progress.activations (progress_closeActivations _)

omit [Scalar α] in
/-- A start of somebody known opens an activation. -/
lemma activate_of_known (st : State α) (index : Nat) {id : Ident} {column : Nat}
    (hcolumn : roster.columnOf? id = some column) :
    (st.activate roster index id).1.progress = st.progress.opened index column ∧
      (st.activate roster index id).2 =
        ⟨st.cursor, false, .activate (some st.activations.size)⟩ := by
  have htouch := progress_touch st column
  rw [activate, hcolumn]
  constructor
  · rw [← htouch]
    rfl
  · exact congrArg (fun p : Progress α =>
      (⟨p.cursor, false, .activate (some p.activations.size)⟩ : Slot α)) htouch

/-- An activation event opens an activation or concerns somebody unknown. -/
lemma activate_progress (id : Ident) :
    Progress.Step s roster.length index st.progress (st.activate roster index id).2
      (st.activate roster index id).1.progress := by
  cases hcolumn : roster.columnOf? id with
  | none =>
      rw [activate, hcolumn]
      exact .nothing
  | some column =>
      obtain ⟨hprogress, hslot⟩ := activate_of_known st index hcolumn
      rw [hprogress, hslot]
      exact .opens (columnOf?_lt hcolumn)

/-- An end of somebody known that has no open activation is noted. -/
lemma deactivate_of_nil (s : Setting α) (index : Nat) {id : Ident} {column : Nat}
    (hcolumn : roster.columnOf? id = some column) (hrunning : st.running.getD column [] = []) :
    (st.deactivate s roster index id).1.progress = st.progress.strayEnd index column ∧
      (st.deactivate s roster index id).2.1 =
        ⟨st.cursor, false, .deactivate (some st.activations.size)⟩ := by
  have htouch := progress_touch st column
  rw [deactivate, hcolumn]
  simp only
  generalize st.touch column = touched at htouch ⊢
  rw [← show touched.running = st.running from congrArg Progress.running htouch] at hrunning
  rw [← htouch, hrunning]
  constructor
  · rfl
  · exact congrArg (fun p : Progress α =>
      (⟨p.cursor, false, .deactivate (some p.activations.size)⟩ : Slot α)) htouch

/-- An end of somebody known closes the latest open activation. -/
lemma deactivate_of_cons (s : Setting α) (index : Nat) {id : Ident} {column activation : Nat}
    {rest : List Nat} (hcolumn : roster.columnOf? id = some column)
    (hrunning : st.running.getD column [] = activation :: rest) :
    (st.deactivate s roster index id).1.progress =
        st.progress.closed s index column activation rest ∧
      ∃ y, (st.deactivate s roster index id).2.1 = ⟨y, false, .deactivate (some activation)⟩ := by
  have htouch := progress_touch st column
  rw [deactivate, hcolumn]
  simp only
  generalize st.touch column = touched at htouch ⊢
  rw [← show touched.running = st.running from congrArg Progress.running htouch] at hrunning
  rw [← htouch, hrunning, Progress.closed, Progress.roused,
    show touched.progress.pending = touched.pending from rfl]
  by_cases hpending : touched.pending.contains activation = true
  · simp only [if_pos hpending, progress_closeActivation]
    exact ⟨rfl, _, rfl⟩
  · simp only [if_neg hpending, progress_closeActivation]
    exact ⟨rfl, _, rfl⟩

/-- The end of an activation closes the latest one of its column, is stray, or concerns somebody
unknown. -/
lemma deactivate_progress (id : Ident) :
    Progress.Step s roster.length index st.progress (st.deactivate s roster index id).2.1
      (st.deactivate s roster index id).1.progress := by
  cases hcolumn : roster.columnOf? id with
  | none =>
      rw [deactivate, hcolumn]
      exact .nothing
  | some column =>
      cases hrunning : st.running.getD column [] with
      | nil =>
          obtain ⟨hprogress, hslot⟩ := deactivate_of_nil s index hcolumn hrunning
          rw [hprogress, hslot]
          exact .strayEnds (columnOf?_lt hcolumn) hrunning
      | cons activation rest =>
          obtain ⟨hprogress, y, hslot⟩ := deactivate_of_cons s index hcolumn hrunning
          rw [hprogress, hslot]
          exact .closes (columnOf?_lt hcolumn) hrunning

/-- Any other event places a row or changes nothing. -/
lemma step_of_other (s : Setting α) (roster : Roster α) (st : State α) (index : Nat) {event : Event}
    (hstart : ∀ id, event ≠ .activate id) (hstop : ∀ id, event ≠ .deactivate id) :
    ((st.step s roster index event).state.progress = st.progress ∨
      ∃ y bottom target, (st.step s roster index event).state.progress =
        st.progress.place y bottom target) ∧
      (st.step s roster index event).slot.kind.ofActivation = false := by
  cases event with
  | message m =>
      refine ⟨Or.inr ?_, rfl⟩
      rw [← progress_touchAll st]
      exact ⟨_, _, _, rfl⟩
  | activate id => exact absurd rfl (hstart id)
  | deactivate id => exact absurd rfl (hstop id)
  | note n =>
      refine ⟨Or.inr ?_, rfl⟩
      rw [← progress_touchAll st]
      exact ⟨_, _, _, rfl⟩
  | divider text => exact ⟨Or.inr ⟨_, _, _, rfl⟩, rfl⟩
  | delay text => exact ⟨Or.inr ⟨_, _, _, rfl⟩, rfl⟩
  | blockStart b => exact ⟨Or.inr ⟨_, _, _, rfl⟩, rfl⟩
  | blockSection text =>
      simp only [step, blockSection]
      split
      · exact ⟨Or.inl rfl, rfl⟩
      · exact ⟨Or.inr ⟨_, _, _, rfl⟩, rfl⟩
  | blockEnd =>
      simp only [step, blockEnd]
      split
      · exact ⟨Or.inl rfl, rfl⟩
      · refine ⟨Or.inr ?_, rfl⟩
        simp only [progress_closeBlock]
        exact ⟨_, _, _, rfl⟩

/-- What every event keeps holds after all of them.  `done` are the slots of the events before. -/
lemma run_events_induction (roster : Roster α) (events : List Event)
    {P : List (Slot α) → State α → Prop}
    (hstep : ∀ done st event, events[done.length]? = some event → P done st →
      P (done ++ [(st.step s roster done.length event).slot])
        (st.step s roster done.length event).state)
    (h : P [] st) : P (st.run s roster 0 events).2.1 (st.run s roster 0 events).1 := by
  have hrun : ∀ (rest : List Event) (done : List (Slot α)) (st : State α),
      events.drop done.length = rest → P done st →
        P (done ++ (st.run s roster done.length rest).2.1)
          (st.run s roster done.length rest).1 := by
    intro rest
    induction rest with
    | nil =>
        intro done st _ h
        simpa only [run, List.append_nil] using h
    | cons event rest ih =>
        intro done st hdrop h
        have hevent : events[done.length]? = some event := by
          rw [← List.head?_drop, hdrop, List.head?_cons]
        have hrest := ih (done ++ [(st.step s roster done.length event).slot]) _
          (by rw [List.length_append, List.length_singleton, ← List.tail_drop, hdrop,
            List.tail_cons]) (hstep done st event hevent h)
        rw [List.length_append, List.length_singleton, List.append_assoc] at hrest
        exact hrest
  exact hrun events [] st List.drop_zero h

variable [Lengths α]

/-- A row is placed below the cursor. -/
lemma placeRow_progress {above below : α} {kind : SlotKind α} (habove : 0 ≤ above)
    (hbelow : 0 ≤ below) (hkind : kind.ofActivation = false) :
    Progress.Step s roster.length index st.progress
      ⟨(st.placeRow s roster index above below kind.target?).1, true, kind⟩
      (st.placeRow s roster index above below kind.target?).2.progress :=
  .row (Lengths.le_trans habove (Lengths.le_maximum habove _))
    (Lengths.le_trans hbelow (Lengths.le_maximum hbelow _)) hkind

variable (hs : s.config.sequence.Sensible) (ht : s.MeasuresLengths)

include hs ht

lemma message_progress (m : Message) :
    Progress.Step s roster.length index st.progress (st.message s roster index m).2
      (st.message s roster index m).1.progress := by
  simp only [message]
  rw [← progress_touchAll st]
  refine placeRow_progress ?_ ?_ rfl
  · cases m.label with
    | none => exact Lengths.zero_le_zero
    | some text => exact Lengths.add_nonneg (ht.measured _ _ _).2 hs.messageLabelPadding
  · split
    · exact hs.selfMessageHeight
    · exact Lengths.zero_le_zero

lemma note_progress (n : Note) :
    Progress.Step s roster.length index st.progress (st.note s roster index n).2
      (st.note s roster index n).1.progress := by
  simp only [note]
  rw [← progress_touchAll st]
  exact placeRow_progress Lengths.zero_le_zero
    (Lengths.add_nonneg (ht.measured _ _ _).2 (Lengths.twice_nonneg hs.notePadding)) rfl

omit hs in
lemma blockSection_progress (text : Option String) :
    Progress.Step s roster.length index st.progress (st.blockSection s roster index text).2.1
      (st.blockSection s roster index text).1.progress := by
  rw [blockSection]
  split
  · exact .nothing
  · refine placeRow_progress Lengths.zero_le_zero ?_ rfl
    cases text with
    | none => exact Lengths.zero_le_zero
    | some text => exact (ht.measured _ _ _).2

omit hs ht in
lemma blockEnd_progress :
    Progress.Step s roster.length index st.progress (st.blockEnd s roster index).2.1
      (st.blockEnd s roster index).1.progress := by
  rw [blockEnd]
  split
  · exact .nothing
  · simp only [progress_closeBlock]
    exact placeRow_progress Lengths.zero_le_zero Lengths.zero_le_zero rfl

/-- **Every event does one of five things to the progress of the walk.** -/
lemma step_progress (event : Event) :
    Progress.Step s roster.length index st.progress (st.step s roster index event).slot
      (st.step s roster index event).state.progress := by
  cases event with
  | message m => exact message_progress hs ht m
  | activate id => exact activate_progress id
  | deactivate id => exact deactivate_progress id
  | note n => exact note_progress hs ht n
  | divider text =>
      exact placeRow_progress (Lengths.half_nonneg (Lengths.max_nonneg _ hs.dividerHeight))
        (Lengths.half_nonneg (Lengths.max_nonneg _ hs.dividerHeight)) rfl
  | delay text =>
      exact placeRow_progress Lengths.zero_le_zero (Lengths.max_nonneg _ hs.delayHeight) rfl
  | blockStart b =>
      exact placeRow_progress Lengths.zero_le_zero
        (Lengths.max_nonneg _ (Lengths.max_nonneg _ hs.blockHeaderHeight)) rfl
  | blockSection text => exact blockSection_progress ht text
  | blockEnd => exact blockEnd_progress

/-- What every step keeps holds after all events.  `done` are the events before the walk. -/
lemma run_induction (roster : Roster α) {P : List (Slot α) → Progress α → Prop}
    (hstep : ∀ done p slot p', P done p → Progress.Step s roster.length done.length p slot p' →
      P (done ++ [slot]) p')
    (events : List Event) {done : List (Slot α)} (h : P done st.progress) :
    P (done ++ (st.run s roster done.length events).2.1)
      (st.run s roster done.length events).1.progress := by
  induction events generalizing st done with
  | nil => simpa only [run, List.append_nil] using h
  | cons event events ih =>
      have hnext := hstep done _ _ _ h (step_progress hs ht event)
      have hrest := ih hnext
      rw [List.length_append, List.length_singleton, List.append_assoc] at hrest
      exact hrest

end State

end Drafting.Sequence
