import Mathlib
import Drafting.Proofs.Sequence.Activations

/-!
What becomes of the events of a diagram.

What an event becomes depends on the state after those before it, and what is drawn for it on
the place that it gets so.

* `State.getElem?_slots_run`, `Timeline.exists_slot`: the slot of an event.
* `Event.takesRow`, `Model.takesRow`: the events that take rows.
* `Timeline.isRow_of_slot`: slots agree with this.
* `Assembly.ofModel`, `Layout.eq_layout`: what a diagram is assembled from.
-/

namespace Drafting.Sequence

variable {α : Type} [Scalar α] {s : Setting α} {roster : Roster α}

/-! ### Slots -/

namespace State

lemma slots_run_append (st : State α) (index : Nat) (events rest : List Event) :
    (st.run s roster index (events ++ rest)).2.1 = (st.run s roster index events).2.1 ++
      ((st.run s roster index events).1.run s roster (index + events.length) rest).2.1 := by
  induction events generalizing st index with
  | nil => rfl
  | cons event events ih =>
      have hindex : index + 1 + events.length = index + (event :: events).length := by
        rw [List.length_cons]
        omega
      simp only [List.cons_append, run, ih, hindex]

/-- What an event becomes depends on the state after those before it. -/
lemma getElem?_slots_run (st : State α) {events : List Event} {i : Nat} {event : Event}
    (h : events[i]? = some event) :
    (st.run s roster 0 events).2.1[i]? =
      some ((st.run s roster 0 (events.take i)).1.step s roster i event).slot := by
  obtain ⟨hi, rfl⟩ := List.getElem?_eq_some_iff.mp h
  have hlength : (events.take i).length = i := List.length_take_of_le hi.le
  have hsplit : (st.run s roster 0 (events.take i ++ events.drop i)).2.1 = _ :=
    slots_run_append st 0 _ _
  rw [List.take_append_drop, hlength, Nat.zero_add, List.drop_eq_getElem_cons hi] at hsplit
  rw [hsplit, List.getElem?_append_right (by rw [length_slots_run, hlength]), length_slots_run,
    hlength, Nat.sub_self]
  rfl

end State

/-- Whether an event takes a row when a number of blocks are open. -/
def Event.takesRow (opened : Nat) : Event → Bool
  | .activate _ => false
  | .deactivate _ => false
  | .blockSection _ => decide (0 < opened)
  | .blockEnd => decide (0 < opened)
  | _ => true

/-- Whether an event of a diagram takes a row: activations never do, and sections and ends of
blocks only in a block. -/
def Model.takesRow (m : Model) (i : Nat) : Bool :=
  m.events[i]?.any
    (·.takesRow (Mark.looseStarts ((m.events.take i).filterMap Event.blockMark)))

/-- An event that takes a row is not one of an activation, and the others take none. -/
lemma State.isRow_step (st : State α) (index : Nat) (event : Event) :
    (st.step s roster index event).slot.isRow = event.takesRow st.openBlocks.length ∧
      ((st.step s roster index event).slot.isRow = true →
        (st.step s roster index event).slot.kind.ofActivation = false) := by
  cases event with
  | message m => exact ⟨rfl, fun _ => rfl⟩
  | note n => exact ⟨rfl, fun _ => rfl⟩
  | divider text => exact ⟨rfl, fun _ => rfl⟩
  | delay text => exact ⟨rfl, fun _ => rfl⟩
  | blockStart b => exact ⟨rfl, fun _ => rfl⟩
  | activate id =>
      simp only [step, activate]
      split <;> exact ⟨rfl, by simp⟩
  | deactivate id =>
      simp only [step, deactivate]
      split
      · exact ⟨rfl, by simp⟩
      · split <;> exact ⟨rfl, by simp⟩
  | blockSection text =>
      simp only [step, blockSection, Event.takesRow]
      split
      · next hopen => simp [hopen]
      · next hopen => simp [hopen, SlotKind.ofActivation]
  | blockEnd =>
      simp only [step, blockEnd, Event.takesRow]
      split
      · next hopen => simp [hopen]
      · next hopen => simp [List.length_pos_iff.mpr hopen, SlotKind.ofActivation]

namespace Timeline

omit [Scalar α] in
lemma isRow_settle (activations : Array (Activation α)) (slot : Slot α) :
    (settle activations slot).isRow = slot.isRow := by
  rw [settle]
  split <;> rfl

omit [Scalar α] in
/-- Only the slots of activations are moved in the end. -/
lemma settle_eq_self {slot : Slot α} (h : slot.kind.ofActivation = false)
    (activations : Array (Activation α)) : settle activations slot = slot := by
  rw [settle]
  split
  · next heq => rw [heq] at h; cases h
  · next heq => rw [heq] at h; cases h
  · rfl

/-- The slot of an event, and the state before it. -/
lemma exists_slot (s : Setting α) (roster : Roster α) {m : Model} {i : Nat} {event : Event}
    (h : m.events[i]? = some event) :
    (ofModel s roster m).slots[i]? = some (settle (ofModel s roster m).activations
      (((State.start roster).run s roster 0 (m.events.take i)).1.step s roster i event).slot) := by
  rw [ofModel, List.getElem?_map, State.getElem?_slots_run _ h, Option.map_some]

lemma length_slots (s : Setting α) (roster : Roster α) (m : Model) :
    (ofModel s roster m).slots.length = m.events.length := by
  rw [ofModel, List.length_map, State.length_slots_run]

/-- The event that a slot belongs to. -/
lemma exists_event {m : Model} {i : Nat} {slot : Slot α}
    (h : (ofModel s roster m).slots[i]? = some slot) : ∃ event, m.events[i]? = some event := by
  have hi := (List.getElem?_eq_some_iff.mp h).1
  rw [length_slots] at hi
  exact ⟨_, List.getElem?_eq_getElem hi⟩

/-- **Slots take rows where the events say so.** -/
lemma isRow_of_slot {m : Model} {i : Nat} {slot : Slot α}
    (h : (ofModel s roster m).slots[i]? = some slot) : slot.isRow = m.takesRow i := by
  obtain ⟨event, hevent⟩ := exists_event h
  have hslot := exists_slot s roster hevent
  rw [h, Option.some.injEq] at hslot
  have hopen : ((State.start roster).run s roster 0 (m.events.take i)).1.openBlocks.length = _ :=
    State.length_openBlocks_run _ 0 _
  rw [hslot, isRow_settle, (State.isRow_step _ i event).1, hopen, Model.takesRow, hevent,
    Option.any_some]
  simp [State.start, Mark.openAfter]

end Timeline

/-! ### Drawings -/

/-- All that the drawing of a diagram is assembled from. -/
def Assembly.ofModel (s : Setting α) (m : Model) : Assembly α :=
  let roster := Roster.ofModel s m
  let t := Timeline.ofModel s roster m
  ⟨s, roster, t, Columns.ofTimeline s roster t⟩

/-- The drawing that is assembled. -/
def Assembly.layout (a : Assembly α) : Layout α where
  participants := a.roster.mapIdx fun column c => a.participant a.timeline.delays column c
  events := a.timeline.slots.mapIdx fun index slot => a.event a.bars index slot
  activations := a.bars.map (·.2)
  blocks := a.blocks

lemma Assembly.mem_activations {a : Assembly α} {g : ActivationGeometry α} :
    g ∈ a.layout.activations ↔ ∃ x ∈ a.timeline.activations, a.activation x = g := by
  simp [layout, bars]

/-- What is drawn for events. -/
lemma Assembly.mem_events {a : Assembly α} {e : EventGeometry α} :
    e ∈ a.layout.events ↔
      ∃ i slot, a.timeline.slots[i]? = some slot ∧ a.event a.bars i slot = e := by
  rw [List.mem_iff_getElem?]
  simp only [layout, List.getElem?_mapIdx, Option.map_eq_some_iff]

/-- A diagram that is laid out is the one that is assembled. -/
lemma Layout.eq_layout {m : Model} {l : Layout α} {diagnostics : List (Diagnostic α)}
    (h : ofModel s m = .ok (l, diagnostics)) : l = (Assembly.ofModel s m).layout := by
  obtain ⟨t, hbuild, hassemble, -⟩ := of_ofModel h
  obtain ⟨rfl, -⟩ := Timeline.build_eq_ok_iff.mp hbuild
  rw [assemble] at hassemble
  dsimp only at hassemble
  split at hassemble
  · cases hassemble
  · exact (Except.ok.inj hassemble).symm

end Drafting.Sequence
