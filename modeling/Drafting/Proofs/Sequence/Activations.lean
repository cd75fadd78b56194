import Mathlib
import Drafting.Proofs.Sequence.Pairing
import Drafting.Proofs.Sequence.Reports

/-!
Activations and the events they belong to.

The walk down the events keeps one list of activations for all participants and one stack for each.
Every start of a participant in the diagram adds an activation, and so does an end that finds none
open.  The number of an activation is therefore known from the events alone.

* `Roster.adds`, `Roster.number`: the events that add activations, and the numbers of these.
* `Activation.OpenedBy`, `Activation.NotedBy`: what a start and a stray end leave in the list.
* `Progress.Follows`: the activations and the stacks after a number of events.
* `Progress.Follows.opened`, `Progress.Follows.strayEnd`, `Progress.Follows.closed`,
  `Progress.Follows.finished`: each event keeps this, and so does the end of the walk.
-/

namespace Drafting.Sequence

open Mark (stack sets Pairs openStarts)

variable {α : Type}

/-! ### Numbers of activations -/

namespace Roster

section Numbers

variable (roster : Roster α) (events : List Event)

/-- Whether an event adds an activation: a start, or an end that finds none open. -/
def adds (n : Nat) : Bool :=
  match events[n]? with
  | some (.activate id) => (roster.columnOf? id).isSome
  | some (.deactivate id) =>
    (roster.columnOf? id).isSome && (stack (Event.activityMark id) events n).isEmpty
  | _ => false

/-- The number of the activation that an event adds. -/
def number (n : Nat) : Nat := Nat.count (fun i => roster.adds events i) n

end Numbers

variable {roster : Roster α} {events : List Event} {i j n : Nat} {id : Ident}

lemma adds_activate (h : events[n]? = some (.activate id)) (hid : (roster.columnOf? id).isSome) :
    roster.adds events n = true := by
  simp [adds, h, hid]

lemma adds_deactivate (h : events[n]? = some (.deactivate id))
    (hid : (roster.columnOf? id).isSome) :
    roster.adds events n = true ↔ stack (Event.activityMark id) events n = [] := by
  simp [adds, h, hid]

lemma number_succ (h : roster.adds events n = true) :
    roster.number events (n + 1) = roster.number events n + 1 := by
  rw [number, Nat.count_succ, if_pos h, number]

lemma number_succ_of_not (h : ¬ roster.adds events n = true) :
    roster.number events (n + 1) = roster.number events n := by
  rw [number, Nat.count_succ, if_neg h, number, Nat.add_zero]

lemma number_lt (h : roster.adds events i = true) (hi : i < n) :
    roster.number events i < roster.number events n :=
  Nat.count_strict_mono h hi

lemma number_inj (hi : roster.adds events i = true) (hj : roster.adds events j = true)
    (h : roster.number events i = roster.number events j) : i = j :=
  Nat.count_injective hi hj h

end Roster

/-! ### The marks of events -/

section Marks

variable {events : List Event} {i n : Nat} {id other : Ident}

lemma sets_activate (h : events[n]? = some (.activate other)) :
    sets (Event.activityMark id) events n = if other = id then some .start else none := by
  rw [sets, h]
  rfl

lemma sets_deactivate (h : events[n]? = some (.deactivate other)) :
    sets (Event.activityMark id) events n = if other = id then some .stop else none := by
  rw [sets, h]
  rfl

/-- A start in the activity of a participant is a start of that participant. -/
lemma sets_eq_start :
    sets (Event.activityMark id) events i = some .start ↔ events[i]? = some (.activate id) := by
  constructor
  · intro h
    rw [sets, Option.bind_eq_some_iff] at h
    obtain ⟨event, hevent, hmark⟩ := h
    cases event with
    | activate other =>
        rw [Event.activityMark] at hmark
        split at hmark
        · next heq => rw [hevent, heq]
        · cases hmark
    | deactivate other =>
        rw [Event.activityMark] at hmark
        split at hmark <;> cases hmark
    | _ => cases hmark
  · exact fun h => (sets_activate h).trans (if_pos rfl)

/-- An end in the activity of a participant is an end of that participant. -/
lemma sets_eq_stop :
    sets (Event.activityMark id) events i = some .stop ↔ events[i]? = some (.deactivate id) := by
  constructor
  · intro h
    rw [sets, Option.bind_eq_some_iff] at h
    obtain ⟨event, hevent, hmark⟩ := h
    cases event with
    | activate other =>
        rw [Event.activityMark] at hmark
        split at hmark <;> cases hmark
    | deactivate other =>
        rw [Event.activityMark] at hmark
        split at hmark
        · next heq => rw [hevent, heq]
        · cases hmark
    | _ => cases hmark
  · exact fun h => (sets_deactivate h).trans (if_pos rfl)

/-- An end matches the latest start of the same participant that is open, and no other. -/
lemma pairs_iff_of_stack {top : Nat} {below : List Nat} (h : events[n]? = some (.deactivate id))
    (hstack : stack (Event.activityMark id) events n = top :: below) :
    Pairs (Event.activityMark other) events i n ↔ other = id ∧ i = top := by
  constructor
  · intro hpairs
    cases h.symm.trans (sets_eq_stop.mp hpairs.stop)
    have hhead := (Mark.pairs_iff_head?.mp hpairs).2
    rw [hstack, List.head?_cons, Option.some.injEq] at hhead
    exact ⟨rfl, hhead.symm⟩
  · rintro ⟨rfl, rfl⟩
    refine Mark.pairs_iff_head?.mpr ⟨sets_eq_stop.mpr h, ?_⟩
    rw [hstack, List.head?_cons]

end Marks

/-! ### What events leave in the list -/

/-- An activation that a start opens, after a number of events. -/
structure Activation.OpenedBy (roster : Roster α) (events : List Event) (n i : Nat) (id : Ident)
    (a : Activation α) : Prop where
  column : roster.columnOf? id = some a.column
  depth : a.depth = (stack (Event.activityMark id) events i).length
  startEvent : a.startEvent = some i
  endEvent : ∀ j, a.endEvent = some j ↔ j < n ∧ Pairs (Event.activityMark id) events i j

/-- An empty activation that an end leaves when none is open. -/
structure Activation.NotedBy (roster : Roster α) (i : Nat) (id : Ident) (a : Activation α) :
    Prop where
  column : roster.columnOf? id = some a.column
  depth : a.depth = 0
  empty : a.startY = a.endY
  startEvent : a.startEvent = none
  endEvent : a.endEvent = some i

/-- An event that does not end an activation leaves it as it is. -/
lemma Activation.OpenedBy.succ {roster : Roster α} {events : List Event} {n i : Nat} {id : Ident}
    {a : Activation α} (h : a.OpenedBy roster events n i id)
    (hnot : ¬ Pairs (Event.activityMark id) events i n) :
    a.OpenedBy roster events (n + 1) i id where
  column := h.column
  depth := h.depth
  startEvent := h.startEvent
  endEvent := Mark.eq_some_iff_succ h.endEvent hnot

/-- The event that matches the start of an open activation ends it. -/
lemma Activation.OpenedBy.stopped {roster : Roster α} {events : List Event} {n i : Nat} {id : Ident}
    {a : Activation α} (h : a.OpenedBy roster events n i id)
    (hopen : ∀ j < n, ¬ Pairs (Event.activityMark id) events i j)
    (hpairs : Pairs (Event.activityMark id) events i n) (endY : α) :
    Activation.OpenedBy roster events (n + 1) i id
      { a with endY := endY, endEvent := some n } where
  column := h.column
  depth := h.depth
  startEvent := h.startEvent
  endEvent j := by
    rw [Option.some.injEq, Nat.lt_succ_iff_lt_or_eq]
    constructor
    · rintro rfl
      exact ⟨Or.inr rfl, hpairs⟩
    · rintro ⟨hj | rfl, hj'⟩
      · exact absurd hj' (hopen j hj)
      · rfl

/-- The activations and the stacks after a number of events. -/
structure Progress.Follows (roster : Roster α) (events : List Event) (n : Nat) (p : Progress α) :
    Prop where
  columns : p.running.size = roster.length
  size : p.activations.size = roster.number events n
  running : ∀ id column, roster.columnOf? id = some column → p.running.getD column [] =
    (stack (Event.activityMark id) events n).map (roster.number events)
  pending : ∀ k ∈ p.pending, ∃ i < n, ∃ id, events[i]? = some (.activate id) ∧
    (roster.columnOf? id).isSome ∧ roster.number events i = k
  starts : ∀ i id, i < n → events[i]? = some (.activate id) → (roster.columnOf? id).isSome →
    ∃ a, p.activations[roster.number events i]? = some a ∧ a.OpenedBy roster events n i id
  strays : ∀ i id, i < n → events[i]? = some (.deactivate id) → (roster.columnOf? id).isSome →
    stack (Event.activityMark id) events i = [] →
    ∃ a, p.activations[roster.number events i]? = some a ∧ a.NotedBy roster i id

namespace Progress.Follows

variable {roster : Roster α} {events : List Event} {n : Nat} {p q : Progress α}

section Rules

variable (h : p.Follows roster events n)

include h

/-- What waits for a row was opened by a start. -/
lemma startEvent_of_pending {k : Nat} {a : Activation α} (ha : p.activations[k]? = some a)
    (hk : k ∈ p.pending) : a.startEvent ≠ none := by
  obtain ⟨i, hi, id, hevent, hid, rfl⟩ := h.pending k hk
  obtain ⟨b, hb, hopened⟩ := h.starts i id hi hevent hid
  cases ha.symm.trans hb
  simp [hopened.startEvent]

/-- An open activation belongs to a start that no end has matched. -/
lemma exists_of_mem_running {id : Ident} {column k : Nat}
    (hcolumn : roster.columnOf? id = some column) (hk : k ∈ p.running.getD column []) :
    ∃ i ∈ stack (Event.activityMark id) events n, roster.number events i = k ∧
      ∃ a, p.activations[k]? = some a ∧ a.OpenedBy roster events n i id ∧ a.endEvent = none := by
  rw [h.running id column hcolumn, List.mem_map] at hk
  obtain ⟨i, hi, rfl⟩ := hk
  obtain ⟨hlt, hstart, hnot⟩ := Mark.mem_stack.mp hi
  obtain ⟨a, ha, hopened⟩ :=
    h.starts i id hlt (sets_eq_start.mp hstart) (Option.isSome_iff_exists.mpr ⟨_, hcolumn⟩)
  refine ⟨i, hi, rfl, a, ha, hopened, ?_⟩
  cases hend : a.endEvent with
  | none => rfl
  | some j =>
      obtain ⟨hj, hpairs⟩ := (hopened.endEvent j).mp hend
      exact absurd hpairs (hnot j hj)

/-- Heights may change, but not those of empty activations. -/
lemma redraw (hrunning : q.running = p.running) (hpending : q.pending ⊆ p.pending)
    (g : Nat → Activation α → Activation α)
    (hentries : ∀ k, q.activations[k]? = p.activations[k]?.map (g k))
    (hsame : ∀ k a, p.activations[k]? = some a → (g k a).column = a.column ∧
      (g k a).depth = a.depth ∧ (g k a).startEvent = a.startEvent ∧ (g k a).endEvent = a.endEvent)
    (hempty : ∀ k a, p.activations[k]? = some a → a.startEvent = none → g k a = a) :
    q.Follows roster events n where
  columns := by rw [hrunning, h.columns]
  size := (size_eq_of_getElem? hentries).trans h.size
  running id column hcolumn := by rw [hrunning, h.running id column hcolumn]
  pending k hk := h.pending k (hpending hk)
  starts i id hi hevent hid := by
    obtain ⟨a, ha, hopened⟩ := h.starts i id hi hevent hid
    obtain ⟨hcolumn, hdepth, hstart, hend⟩ := hsame _ a ha
    refine ⟨g _ a, by rw [hentries, ha, Option.map_some], ?_⟩
    exact ⟨hcolumn ▸ hopened.column, hdepth.trans hopened.depth, hstart.trans hopened.startEvent,
      hend ▸ hopened.endEvent⟩
  strays i id hi hevent hid hstack := by
    obtain ⟨a, ha, hnoted⟩ := h.strays i id hi hevent hid hstack
    refine ⟨a, ?_, hnoted⟩
    rw [hentries, ha, Option.map_some, hempty _ a ha hnoted.startEvent]

/-- What waits begins. -/
lemma begun (y : α) (hrunning : q.running = p.running) (hpending : q.pending = [])
    (hactivations : q.activations = p.begun y) : q.Follows roster events n := by
  refine h.redraw hrunning (by simp [hpending]) (fun k a => { a with startY := p.top y k a })
    (fun k => by rw [hactivations, getElem?_begun]) (fun _ _ _ => ⟨rfl, rfl, rfl, rfl⟩) ?_
  intro k a ha hnone
  have hk : k ∉ p.pending := fun hk => h.startEvent_of_pending ha hk hnone
  simp [top, hk]

/-- After an event that ends no activation, what the events before it left is still there. -/
lemma keep
    (hnot : ∀ id, (roster.columnOf? id).isSome → ∀ i, ¬ Pairs (Event.activityMark id) events i n)
    (hcolumns : q.running.size = p.running.size)
    (hsize : q.activations.size = roster.number events (n + 1))
    (hrunning : ∀ id column, roster.columnOf? id = some column → q.running.getD column [] =
      (stack (Event.activityMark id) events (n + 1)).map (roster.number events))
    (hpending : ∀ k ∈ q.pending, k ∈ p.pending ∨ ∃ id, events[n]? = some (.activate id) ∧
      (roster.columnOf? id).isSome ∧ roster.number events n = k)
    (hkept : ∀ i < n, roster.adds events i = true →
      q.activations[roster.number events i]? = p.activations[roster.number events i]?)
    (hstart : ∀ id, events[n]? = some (.activate id) → (roster.columnOf? id).isSome →
      ∃ a, q.activations[roster.number events n]? = some a ∧
        a.OpenedBy roster events (n + 1) n id)
    (hstray : ∀ id, events[n]? = some (.deactivate id) → (roster.columnOf? id).isSome →
      stack (Event.activityMark id) events n = [] →
      ∃ a, q.activations[roster.number events n]? = some a ∧ a.NotedBy roster n id) :
    q.Follows roster events (n + 1) where
  columns := hcolumns.trans h.columns
  size := hsize
  running := hrunning
  pending k hk := by
    rcases hpending k hk with hk | hlast
    · obtain ⟨i, hi, hrest⟩ := h.pending k hk
      exact ⟨i, Nat.lt_succ_of_lt hi, hrest⟩
    · exact ⟨n, Nat.lt_succ_self n, hlast⟩
  starts i id hi hevent hid := by
    rcases Nat.lt_succ_iff_lt_or_eq.mp hi with hi | rfl
    · obtain ⟨a, ha, hopened⟩ := h.starts i id hi hevent hid
      exact ⟨a, (hkept i hi (Roster.adds_activate hevent hid)).trans ha,
        hopened.succ (hnot id hid i)⟩
    · exact hstart id hevent hid
  strays i id hi hevent hid hstack := by
    rcases Nat.lt_succ_iff_lt_or_eq.mp hi with hi | rfl
    · obtain ⟨a, ha, hnoted⟩ := h.strays i id hi hevent hid hstack
      exact ⟨a, (hkept i hi ((Roster.adds_deactivate hevent hid).mpr hstack)).trans ha, hnoted⟩
    · exact hstray id hevent hid hstack

/-- An event that no participant of the diagram is active in. -/
lemma skip (hevent : ∀ id, (roster.columnOf? id).isSome →
    sets (Event.activityMark id) events n = none) : p.Follows roster events (n + 1) := by
  have hnever : ∀ id, (roster.columnOf? id).isSome →
      events[n]? ≠ some (.activate id) ∧ events[n]? ≠ some (.deactivate id) := by
    intro id hid
    have hnone := hevent id hid
    constructor <;> intro hn
    · rw [sets_activate hn, if_pos rfl] at hnone
      cases hnone
    · rw [sets_deactivate hn, if_pos rfl] at hnone
      cases hnone
  have hadds : ¬ roster.adds events n = true := by
    rw [Roster.adds]
    split
    · next id hn => exact fun hid => (hnever id hid).1 hn
    · next id hn =>
        rw [Bool.and_eq_true]
        exact fun hid => (hnever id hid.1).2 hn
    · simp
  refine h.keep (fun id hid i hpairs => ?_) rfl ?_ (fun id column hcolumn => ?_)
    (fun k hk => Or.inl hk) (fun _ _ _ => rfl)
    (fun id hn hid => absurd hn (hnever id hid).1) fun id hn hid => absurd hn (hnever id hid).2
  · cases (hevent id hid).symm.trans hpairs.stop
  · rw [Roster.number_succ_of_not hadds, h.size]
  · rw [Mark.stack_of_none (hevent id (Option.isSome_iff_exists.mpr ⟨_, hcolumn⟩)),
      h.running id column hcolumn]

/-- An event of one participant changes the stack of its column and leaves the others. -/
lemma getD_running_modify {id other : Ident} {column place : Nat} {f : List Nat → List Nat}
    (hcolumn : roster.columnOf? id = some column)
    (hevent : ∀ other, id ≠ other → sets (Event.activityMark other) events n = none)
    (hself : f ((stack (Event.activityMark id) events n).map (roster.number events)) =
      (stack (Event.activityMark id) events (n + 1)).map (roster.number events))
    (hplace : roster.columnOf? other = some place) :
    (p.running.modify column f).getD place [] =
      (stack (Event.activityMark other) events (n + 1)).map (roster.number events) := by
  rw [getD_modify_of_lt (h.columns ▸ State.columnOf?_lt hcolumn), h.running other place hplace]
  by_cases heq : id = other
  · subst heq
    rw [if_pos (Option.some.inj (hcolumn.symm.trans hplace)), hself]
  · rw [if_neg, Mark.stack_of_none (hevent other heq)]
    rintro rfl
    exact heq (State.eq_of_columnOf? hplace hcolumn)

/-- The numbers of earlier activations stay when one is added. -/
lemma getElem?_push {i : Nat} (hi : i < n) (hadds : roster.adds events i = true)
    (a : Activation α) :
    (p.activations.push a)[roster.number events i]? =
      p.activations[roster.number events i]? := by
  rw [Array.getElem?_push, if_neg]
  rw [h.size]
  exact (Roster.number_lt hadds hi).ne

lemma getElem?_push_self (a : Activation α) :
    (p.activations.push a)[roster.number events n]? = some a := by
  rw [← h.size, Array.getElem?_push_size]

/-- A start opens an activation. -/
lemma opened {id : Ident} {column : Nat} (hevent : events[n]? = some (.activate id))
    (hcolumn : roster.columnOf? id = some column) :
    (p.opened n column).Follows roster events (n + 1) := by
  have hid : (roster.columnOf? id).isSome := Option.isSome_iff_exists.mpr ⟨column, hcolumn⟩
  refine h.keep (fun other _ i hpairs => ?_) ?_ ?_ (fun other place hplace => ?_) (fun k hk => ?_)
    (fun i hi hadds => ?_) (fun other hstart _ => ?_) fun other hstop _ _ => ?_
  · cases hevent.symm.trans (sets_eq_stop.mp hpairs.stop)
  · rw [Progress.opened, Array.size_modify]
  · rw [Progress.opened, Array.size_push, h.size,
      Roster.number_succ (Roster.adds_activate hevent hid)]
  · refine h.getD_running_modify hcolumn
      (fun other hne => (sets_activate hevent).trans (if_neg hne)) ?_ hplace
    rw [Mark.stack_of_start (sets_eq_start.mpr hevent), List.map_cons, h.size]
  · have hcases : k ∈ p.pending ∨ k = p.activations.size := by
      simp only [Progress.opened] at hk
      split at hk
      · simpa using hk
      · exact Or.inl hk
    exact hcases.imp_right fun hk => ⟨id, hevent, hid, h.size.symm.trans hk.symm⟩
  · rw [Progress.opened, h.getElem?_push hi hadds]
  · cases hevent.symm.trans hstart
    refine ⟨_, h.getElem?_push_self _, hcolumn, ?_, rfl, fun j => ?_⟩
    · rw [h.running id column hcolumn, List.length_map]
    · constructor
      · intro hnone
        cases hnone
      · rintro ⟨hj, hpairs⟩
        have := hpairs.lt
        omega
  · cases hevent.symm.trans hstop

/-- An end that finds no activation leaves an empty one. -/
lemma strayEnd {id : Ident} {column : Nat} (hevent : events[n]? = some (.deactivate id))
    (hcolumn : roster.columnOf? id = some column) (hnone : p.running.getD column [] = []) :
    (p.strayEnd n column).Follows roster events (n + 1) := by
  have hid : (roster.columnOf? id).isSome := Option.isSome_iff_exists.mpr ⟨column, hcolumn⟩
  have hstack : stack (Event.activityMark id) events n = [] := by
    rwa [h.running id column hcolumn, List.map_eq_nil_iff] at hnone
  refine h.keep (fun other _ i hpairs => ?_) rfl ?_ (fun other place hplace => ?_)
    (fun k hk => Or.inl hk) (fun i hi hadds => ?_) (fun other hstart _ => ?_)
    fun other hstop _ _ => ?_
  · cases hevent.symm.trans (sets_eq_stop.mp hpairs.stop)
    have hhead := (Mark.pairs_iff_head?.mp hpairs).2
    rw [hstack] at hhead
    cases hhead
  · rw [Progress.strayEnd, Array.size_push, h.size,
      Roster.number_succ ((Roster.adds_deactivate hevent hid).mpr hstack)]
  · refine (h.running other place hplace).trans ?_
    by_cases heq : id = other
    · subst heq
      rw [Mark.stack_of_stop (sets_eq_stop.mpr hevent), hstack, List.tail_nil]
    · rw [Mark.stack_of_none ((sets_deactivate hevent).trans (if_neg heq))]
  · rw [Progress.strayEnd, h.getElem?_push hi hadds]
  · cases hevent.symm.trans hstart
  · cases hevent.symm.trans hstop
    exact ⟨_, h.getElem?_push_self _, hcolumn, rfl, rfl, rfl, rfl⟩

/-- The latest activation of a participant begins at the cursor if it still waits. -/
lemma roused {id : Ident} {column activation : Nat} (hcolumn : roster.columnOf? id = some column)
    (hmem : activation ∈ p.running.getD column []) :
    (p.roused activation).Follows roster events n := by
  refine h.redraw (running_roused p activation) ?_
    (fun k a => if activation = k then { a with startY := p.top p.cursor k a } else a)
    (fun k => ?_) (fun k a ha => ?_) fun k a ha hnone => ?_
  · rw [pending_roused]
    exact List.erase_subset
  · rw [getElem?_roused]
    split
    · rfl
    · rw [Option.map_id']
  · split <;> exact ⟨rfl, rfl, rfl, rfl⟩
  · rw [if_neg]
    rintro rfl
    obtain ⟨i, -, -, b, hb, hopened, -⟩ := h.exists_of_mem_running hcolumn hmem
    cases ha.symm.trans hb
    cases hnone.symm.trans hopened.startEvent

variable [Scalar α] {s : Setting α}

/-- What is still open at the end of the walk ends without an event. -/
lemma ended {id : Ident} {column activation : Nat} (hcolumn : roster.columnOf? id = some column)
    (hmem : activation ∈ p.running.getD column []) (floor : α) :
    (p.ended s activation floor none).Follows roster events n := by
  obtain ⟨i, -, -, b, hb, hopened, hend⟩ := h.exists_of_mem_running hcolumn hmem
  refine h.redraw (running_ended p activation floor none) ?_
    (fun k a => if activation = k then
      { a with endY := p.endOf s activation a floor, endEvent := none } else a)
    (fun k => ?_) (fun k a ha => ?_) fun k a ha hnone => ?_
  · rw [pending_ended]
    exact List.Subset.refl _
  · rw [getElem?_ended]
    split
    · rfl
    · rw [Option.map_id']
  · split
    · next hk =>
        subst hk
        cases ha.symm.trans hb
        exact ⟨rfl, rfl, rfl, hend.symm⟩
    · exact ⟨rfl, rfl, rfl, rfl⟩
  · rw [if_neg]
    rintro rfl
    cases ha.symm.trans hb
    cases hnone.symm.trans hopened.startEvent

/-- An end closes the activation of the latest start that no end has matched. -/
lemma closed {id : Ident} {column activation : Nat} {rest : List Nat}
    (hevent : events[n]? = some (.deactivate id)) (hcolumn : roster.columnOf? id = some column)
    (hrunning : p.running.getD column [] = activation :: rest) :
    (p.closed s n column activation rest).Follows roster events (n + 1) := by
  have hid : (roster.columnOf? id).isSome := Option.isSome_iff_exists.mpr ⟨column, hcolumn⟩
  have hroused := h.roused hcolumn (hrunning ▸ List.mem_cons_self)
  obtain ⟨top, below, hstack, hnumber, hbelow⟩ : ∃ top below,
      stack (Event.activityMark id) events n = top :: below ∧
      roster.number events top = activation ∧ below.map (roster.number events) = rest := by
    rw [h.running id column hcolumn] at hrunning
    exact List.map_eq_cons_iff.mp hrunning
  obtain ⟨-, htop, hnever⟩ := Mark.mem_stack.mp (hstack ▸ List.mem_cons_self)
  have hadds : ¬ roster.adds events n = true := by
    rw [Roster.adds_deactivate hevent hid, hstack]
    exact List.cons_ne_nil _ _
  -- the activation that ends is that of the start on top of the stack
  have hsame : ∀ i, roster.adds events i = true → activation = roster.number events i → i = top :=
    fun i hi heq => Roster.number_inj hi (Roster.adds_activate (sets_eq_start.mp htop) hid)
      (heq.symm.trans hnumber.symm)
  have hentries : ∀ k, (p.closed s n column activation rest).activations[k]? =
      (p.roused activation).activations[k]?.map fun a => if activation = k then
        { a with endY := ((p.roused activation).popped column rest).endOf s activation a p.floor
                 endEvent := some n }
        else a := by
    intro k
    refine (getElem?_ended _ _ _ _ k).trans ?_
    split
    · rfl
    · rw [Option.map_id']
      rfl
  refine ⟨?_, ?_, ?_, ?_, ?_, ?_⟩
  · rw [running_closed, Array.size_modify, h.columns]
  · rw [Roster.number_succ_of_not hadds, size_eq_of_getElem? hentries, hroused.size]
  · intro other place hplace
    rw [running_closed]
    refine h.getD_running_modify hcolumn
      (fun other hne => (sets_deactivate hevent).trans (if_neg hne)) ?_ hplace
    rw [Mark.stack_of_stop (sets_eq_stop.mpr hevent), hstack, List.tail_cons, hbelow]
  · intro k hk
    rw [pending_closed] at hk
    obtain ⟨i, hi, hrest⟩ := h.pending k (List.mem_of_mem_erase hk)
    exact ⟨i, Nat.lt_succ_of_lt hi, hrest⟩
  · intro i other hi hstart hother
    rcases Nat.lt_succ_iff_lt_or_eq.mp hi with hi | rfl
    · obtain ⟨a, ha, hopened⟩ := hroused.starts i other hi hstart hother
      rw [hentries, ha, Option.map_some]
      refine ⟨_, rfl, ?_⟩
      split
      · next heq =>
          obtain rfl := hsame i (Roster.adds_activate hstart hother) heq
          cases hstart.symm.trans (sets_eq_start.mp htop)
          exact hopened.stopped hnever ((pairs_iff_of_stack hevent hstack).mpr ⟨rfl, rfl⟩) _
      · next hne =>
          refine hopened.succ fun hpairs => hne ?_
          obtain ⟨rfl, rfl⟩ := (pairs_iff_of_stack hevent hstack).mp hpairs
          exact hnumber.symm
    · cases hevent.symm.trans hstart
  · intro i other hi hstop hother hempty
    have hadds' := (Roster.adds_deactivate hstop hother).mpr hempty
    rcases Nat.lt_succ_iff_lt_or_eq.mp hi with hi | rfl
    · obtain ⟨a, ha, hnoted⟩ := hroused.strays i other hi hstop hother hempty
      refine ⟨a, ?_, hnoted⟩
      rw [hentries, ha, Option.map_some, if_neg]
      intro heq
      obtain rfl := hsame i hadds' heq
      cases hstop.symm.trans (sets_eq_start.mp htop)
    · exact absurd hadds' hadds

end Rules

/-- The entries of the list are what starts and stray ends leave there. -/
lemma cases_entry (h : p.Follows roster events n) {k : Nat} {a : Activation α}
    (ha : p.activations[k]? = some a) :
    ∃ i < n, roster.number events i = k ∧ ∃ id, (roster.columnOf? id).isSome ∧
      (events[i]? = some (.activate id) ∧ a.OpenedBy roster events n i id ∨
        events[i]? = some (.deactivate id) ∧ stack (Event.activityMark id) events i = [] ∧
          a.NotedBy roster i id) := by
  have hk : k < roster.number events n := h.size ▸ (Array.getElem?_eq_some_iff.mp ha).1
  obtain ⟨i, hi, hadds, rfl⟩ := exists_of_lt_count hk
  refine ⟨i, hi, rfl, ?_⟩
  rw [Roster.adds] at hadds
  split at hadds
  · next id hevent =>
      obtain ⟨b, hb, hopened⟩ := h.starts i id hi hevent hadds
      cases ha.symm.trans hb
      exact ⟨id, hadds, Or.inl ⟨hevent, hopened⟩⟩
  · next id hevent =>
      rw [Bool.and_eq_true, List.isEmpty_iff] at hadds
      obtain ⟨b, hb, hnoted⟩ := h.strays i id hi hevent hadds.1 hadds.2
      cases ha.symm.trans hb
      exact ⟨id, hadds.1, Or.inr ⟨hevent, hadds.2, hnoted⟩⟩
  · cases hadds

/-- A start owns one activation. -/
lemma eq_of_startEvent (h : p.Follows roster events n) {k i : Nat} {a : Activation α}
    (ha : p.activations[k]? = some a) (hstart : a.startEvent = some i) :
    k = roster.number events i := by
  obtain ⟨i', -, rfl, id, -, ⟨-, hopened⟩ | ⟨-, -, hnoted⟩⟩ := h.cases_entry ha
  · cases hstart.symm.trans hopened.startEvent
    rfl
  · cases hstart.symm.trans hnoted.startEvent

/-- An end owns one activation. -/
lemma eq_of_endEvent (h : p.Follows roster events n) {k j : Nat} {id : Ident} {a : Activation α}
    (hevent : events[j]? = some (.deactivate id)) (ha : p.activations[k]? = some a)
    (hend : a.endEvent = some j) :
    k = roster.number events ((stack (Event.activityMark id) events j).head?.getD j) := by
  obtain ⟨i, -, rfl, other, -, ⟨-, hopened⟩ | ⟨hstray, hstack, hnoted⟩⟩ := h.cases_entry ha
  · have hpairs := ((hopened.endEvent j).mp hend).2
    cases hevent.symm.trans (sets_eq_stop.mp hpairs.stop)
    rw [(Mark.pairs_iff_head?.mp hpairs).2, Option.getD_some]
  · cases hend.symm.trans hnoted.endEvent
    cases hevent.symm.trans hstray
    rw [hstack, List.head?_nil, Option.getD_none]

/-- The activation that an end owns. -/
lemma exists_ended (h : p.Follows roster events n) {j : Nat} {id : Ident} (hj : j < n)
    (hevent : events[j]? = some (.deactivate id)) (hid : (roster.columnOf? id).isSome) :
    ∃ a, p.activations[roster.number events
        ((stack (Event.activityMark id) events j).head?.getD j)]? = some a ∧
      roster.columnOf? id = some a.column ∧ a.endEvent = some j ∧
      a.startEvent = (stack (Event.activityMark id) events j).head? ∧
      (a.startEvent = none → a.depth = 0 ∧ a.startY = a.endY) := by
  cases hstack : stack (Event.activityMark id) events j with
  | nil =>
      obtain ⟨a, ha, hnoted⟩ := h.strays j id hj hevent hid hstack
      exact ⟨a, ha, hnoted.column, hnoted.endEvent, hnoted.startEvent,
        fun _ => ⟨hnoted.depth, hnoted.empty⟩⟩
  | cons top below =>
      obtain ⟨htop, hstart⟩ := Mark.lt_of_mem_stack (hstack ▸ List.mem_cons_self)
      obtain ⟨a, ha, hopened⟩ := h.starts top id (htop.trans hj) (sets_eq_start.mp hstart) hid
      have hpairs := (pairs_iff_of_stack hevent hstack).mpr ⟨rfl, rfl⟩
      refine ⟨a, ha, hopened.column, (hopened.endEvent j).mpr ⟨hj, hpairs⟩, hopened.startEvent,
        fun hnone => ?_⟩
      cases hnone.symm.trans hopened.startEvent

/-- What is open when the walk ends is closed without an event. -/
lemma finished [Scalar α] {s : Setting α} (h : p.Follows roster events n)
    (hnames : (roster.map Column.id).Nodup) : (p.finished s).Follows roster events n := by
  have hfold : ∀ (opened : List Nat) (q : Progress α), q.Follows roster events n →
      (∀ k ∈ opened, ∃ id column, roster.columnOf? id = some column ∧
        k ∈ q.running.getD column []) →
      (opened.foldl (fun q activation => q.ended s activation q.cursor none) q).Follows
        roster events n := by
    intro opened
    induction opened with
    | nil => exact fun q hq _ => hq
    | cons k opened ih =>
        intro q hq hopen
        obtain ⟨id, column, hcolumn, hk⟩ := hopen k List.mem_cons_self
        refine ih _ (hq.ended hcolumn hk q.cursor) fun j hj => ?_
        rw [running_ended]
        exact hopen j (List.mem_cons_of_mem k hj)
  refine hfold _ _ (h.begun p.cursor rfl rfl rfl) fun k hk => ?_
  obtain ⟨running, hrunning, hk⟩ := List.mem_flatten.mp hk
  obtain ⟨column, hcolumn, rfl⟩ := List.getElem_of_mem hrunning
  rw [Array.length_toList] at hcolumn
  refine ⟨_, column, Declared.indexOf?_getElem hnames (h.columns ▸ hcolumn), ?_⟩
  simpa [Array.getD_eq_getD_getElem?, hcolumn] using hk

end Progress.Follows

/-! ### The walk -/

/-- The activation that the slot of an event refers to. -/
def SlotKind.activation? : SlotKind α → Option Nat
  | .activate k => k
  | .deactivate k => k
  | _ => none

/-- The activation that an event refers to: the one it adds, or the one of the start it ends. -/
def Roster.reference (roster : Roster α) (events : List Event) (n : Nat) : Option Nat :=
  match events[n]? with
  | some (.activate id) =>
    if (roster.columnOf? id).isSome then some (roster.number events n) else none
  | some (.deactivate id) =>
    if (roster.columnOf? id).isSome then
      some (roster.number events ((stack (Event.activityMark id) events n).head?.getD n))
    else none
  | _ => none

namespace State

variable {roster : Roster α} {events : List Event} {st : State α} {n : Nat}

lemma activation?_of_ofActivation {kind : SlotKind α} (h : kind.ofActivation = false) :
    kind.activation? = none := by
  cases kind with
  | activate k => cases h
  | deactivate k => cases h
  | _ => rfl

variable [Scalar α] {s : Setting α}

lemma follows_start (roster : Roster α) (events : List Event) :
    (start roster).progress.Follows roster events 0 where
  columns := Array.size_replicate
  size := rfl
  running id column _ := by
    rw [stack, List.map_nil]
    simp only [progress, start, Array.getD_eq_getD_getElem?, Array.getElem?_replicate]
    split <;> rfl
  pending k hk := absurd hk List.not_mem_nil
  starts i _ hi := absurd hi (Nat.not_lt_zero i)
  strays i _ hi := absurd hi (Nat.not_lt_zero i)

omit [Scalar α] in
lemma follows_activate {id : Ident} (h : st.progress.Follows roster events n)
    (hevent : events[n]? = some (.activate id)) :
    (st.activate roster n id).1.progress.Follows roster events (n + 1) ∧
      (st.activate roster n id).2.kind.activation? = roster.reference events n := by
  simp only [Roster.reference, hevent]
  cases hcolumn : roster.columnOf? id with
  | none =>
      rw [activate, hcolumn]
      refine ⟨h.skip fun other hother => ?_, rfl⟩
      rw [sets_activate hevent, if_neg]
      rintro rfl
      simp [hcolumn] at hother
  | some column =>
      obtain ⟨hprogress, hslot⟩ := activate_of_known st n hcolumn
      rw [hprogress, hslot]
      refine ⟨h.opened hevent hcolumn, ?_⟩
      exact congrArg some h.size

lemma follows_deactivate {id : Ident} (h : st.progress.Follows roster events n)
    (hevent : events[n]? = some (.deactivate id)) :
    (st.deactivate s roster n id).1.progress.Follows roster events (n + 1) ∧
      (st.deactivate s roster n id).2.1.kind.activation? = roster.reference events n := by
  simp only [Roster.reference, hevent]
  cases hcolumn : roster.columnOf? id with
  | none =>
      rw [deactivate, hcolumn]
      refine ⟨h.skip fun other hother => ?_, rfl⟩
      rw [sets_deactivate hevent, if_neg]
      rintro rfl
      simp [hcolumn] at hother
  | some column =>
      have hstack := h.running id column hcolumn
      cases hrunning : st.running.getD column [] with
      | nil =>
          obtain ⟨hprogress, hslot⟩ := deactivate_of_nil s n hcolumn hrunning
          rw [hprogress, hslot, List.map_eq_nil_iff.mp (hstack.symm.trans hrunning)]
          exact ⟨h.strayEnd hevent hcolumn hrunning, congrArg some h.size⟩
      | cons activation rest =>
          obtain ⟨hprogress, y, hslot⟩ := deactivate_of_cons s n hcolumn hrunning
          obtain ⟨top, below, htop, hnumber, -⟩ :=
            List.map_eq_cons_iff.mp (hstack.symm.trans hrunning)
          rw [hprogress, hslot, htop]
          exact ⟨h.closed hevent hcolumn hrunning, congrArg some hnumber.symm⟩

/-- **An event keeps the activations in line and refers to the one it adds or ends.** -/
lemma follows_step {event : Event} (h : st.progress.Follows roster events n)
    (hevent : events[n]? = some event) :
    (st.step s roster n event).state.progress.Follows roster events (n + 1) ∧
      (st.step s roster n event).slot.kind.activation? = roster.reference events n := by
  by_cases hstart : ∃ id, event = .activate id
  · obtain ⟨id, rfl⟩ := hstart
    exact follows_activate h hevent
  by_cases hstop : ∃ id, event = .deactivate id
  · obtain ⟨id, rfl⟩ := hstop
    exact follows_deactivate h hevent
  rw [not_exists] at hstart hstop
  have hnone : ∀ id, event.activityMark id = none := by
    intro id
    cases event with
    | activate other => exact absurd rfl (hstart other)
    | deactivate other => exact absurd rfl (hstop other)
    | _ => rfl
  have hskip := h.skip fun id _ => by rw [sets, hevent, Option.bind_some, hnone]
  obtain ⟨hprogress, hkind⟩ := step_of_other s roster st n hstart hstop
  constructor
  · rcases hprogress with hprogress | ⟨y, bottom, target, hprogress⟩
    · rwa [hprogress]
    · rw [hprogress]
      exact hskip.begun y rfl rfl rfl
  · rw [activation?_of_ofActivation hkind, Roster.reference, hevent]
    cases event with
    | activate other => exact absurd rfl (hstart other)
    | deactivate other => exact absurd rfl (hstop other)
    | _ => rfl

lemma length_slots_run (st : State α) (index : Nat) (events : List Event) :
    (st.run s roster index events).2.1.length = events.length := by
  induction events generalizing st index with
  | nil => rfl
  | cons event events ih => exact congrArg (· + 1) (ih _ _)

/-- The activations after all events, and what the events refer to. -/
lemma follows_run (roster : Roster α) (events : List Event) :
    ((start roster).run s roster 0 events).1.progress.Follows roster events events.length ∧
      ((start roster).run s roster 0 events).2.1.map (·.kind.activation?) =
        (List.range events.length).map (roster.reference events) := by
  have hrun := run_events_induction (s := s) roster events
    (P := fun done st => st.progress.Follows roster events done.length ∧
      done.map (·.kind.activation?) = (List.range done.length).map (roster.reference events))
    (fun done st event hevent h => by
      obtain ⟨hfollows, href⟩ := follows_step (s := s) h.1 hevent
      rw [List.length_append, List.length_singleton, List.range_succ, List.map_append,
        List.map_append, h.2]
      exact ⟨hfollows, congrArg _ (congrArg (fun r => [r]) href)⟩)
    ⟨follows_start roster events, rfl⟩
  rwa [length_slots_run] at hrun

end State

end Drafting.Sequence
