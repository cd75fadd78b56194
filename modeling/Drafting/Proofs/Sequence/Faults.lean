import Mathlib
import Drafting.Proofs.Arrays
import Drafting.Proofs.Declared
import Drafting.Proofs.Diagnostics
import Drafting.Proofs.Sequence.Brackets
import Drafting.Proofs.Sequence.Outcome

/-!
The faults of a sequence diagram.

The walk down the events reports a fault when it meets one.  What it keeps open are the
stacks of activations and of blocks, and only their heights matter for the reports.  They
follow the marks that events set.

* `Model.activity`, `Model.blockMarks`, `Model.outerSections`: the marks of a participant, those of
  blocks, and the sections that lie in no block.
* `State.runningAt_step`, `State.length_openBlocks_step`, `State.diagnostics_step`: what an event
  does to the stacks, and what it reports.
* `State.subjects_unknown_run`, `State.count_strayStop_run`, `State.length_strayBlock_run`: what all
  events report.
-/

namespace Drafting.Sequence

open Diagnostic (subjects)

/-! ### Marks of events -/

/-- The mark an event sets in the activity of a participant. -/
def Event.activityMark (id : Ident) : Event → Option Mark
  | .activate i => if i = id then some .start else none
  | .deactivate i => if i = id then some .stop else none
  | _ => none

/-- The mark an event sets among blocks. -/
def Event.blockMark : Event → Option Mark
  | .blockStart _ => some .start
  | .blockEnd => some .stop
  | _ => none

/-- Whether an event begins a section. -/
def Event.isSection : Event → Bool
  | .blockSection _ => true
  | _ => false

namespace Model

/-- The starts and stops of a participant's activations. -/
def activity (m : Model) (id : Ident) : List Mark := m.events.filterMap (Event.activityMark id)

/-- The starts and stops of blocks. -/
def blockMarks (m : Model) : List Mark := m.events.filterMap Event.blockMark

/-- The number of sections that lie in no block: there is no open one before them. -/
def outerSections (m : Model) : Nat :=
  m.events.zipIdx.countP fun entry =>
    entry.1.isSection && Mark.looseStarts ((m.events.take entry.2).filterMap Event.blockMark) == 0

/-- The names of the participants, each once. -/
def names (m : Model) : List Ident := (m.participants.map (·.id)).eraseDups

end Model

/-! ### One event -/

namespace State

variable {α : Type} {roster : Roster α} {st : State α} {index : Nat}

/-- How many activations of a column are open. -/
def runningAt (st : State α) (column : Nat) : Nat := (st.running.getD column []).length

@[simp]
lemma openBlocks_touch (st : State α) (column : Nat) :
    (st.touch column).openBlocks = st.openBlocks := by
  rw [touch]
  split
  · rfl
  · next h => exact h.symm ▸ rfl

@[simp]
lemma openBlocks_touchAll (st : State α) (columns : List Nat) :
    (st.touchAll columns).openBlocks = st.openBlocks := by
  rw [touchAll]
  induction columns generalizing st with
  | nil => rfl
  | cons column columns ih => rw [List.foldl_cons, ih, openBlocks_touch]

@[simp]
lemma running_touch (st : State α) (column : Nat) : (st.touch column).running = st.running :=
  congrArg Progress.running (progress_touch st column)

@[simp]
lemma running_touchAll (st : State α) (columns : List Nat) :
    (st.touchAll columns).running = st.running :=
  congrArg Progress.running (progress_touchAll st columns)

variable [Scalar α] {s : Setting α}

lemma openBlocks_closeActivation (st : State α) (activation : Nat) (floor : α)
    (endEvent : Option Nat) :
    (st.closeActivation s activation floor endEvent).2.openBlocks = st.openBlocks := by
  rw [closeActivation]
  split <;> rfl

lemma running_closeActivation (st : State α) (activation : Nat) (floor : α)
    (endEvent : Option Nat) :
    (st.closeActivation s activation floor endEvent).2.running = st.running := by
  rw [closeActivation]
  split <;> rfl

omit [Scalar α] in
lemma openBlocks_closeBlock (st : State α) (bottom : α) (endEvent : Option Nat) :
    (st.closeBlock bottom endEvent).2.openBlocks = st.openBlocks.tail := by
  rw [closeBlock]
  split
  · next h => rw [h]; rfl
  · next h => rw [h]; rfl

lemma openBlocks_deactivate (st : State α) (id : Ident) :
    (st.deactivate s roster index id).1.openBlocks = st.openBlocks := by
  rw [deactivate]
  split
  · rfl
  · dsimp only
    split
    · exact openBlocks_touch st _
    · rw [openBlocks_closeActivation]
      split <;> exact openBlocks_touch st _

/-- An event opens a block, ends the innermost one, or leaves the open blocks as they are. -/
lemma length_openBlocks_step (st : State α) (index : Nat) (event : Event) :
    (st.step s roster index event).state.openBlocks.length =
      Mark.openAfter st.openBlocks.length event.blockMark.toList := by
  cases event with
  | message m => exact congrArg List.length (openBlocks_touchAll st _)
  | activate id =>
      simp only [step, activate]
      split
      · rfl
      · exact congrArg List.length (openBlocks_touch st _)
  | deactivate id => exact congrArg List.length (openBlocks_deactivate st id)
  | note n => exact congrArg List.length (openBlocks_touchAll st _)
  | divider text => rfl
  | delay text => rfl
  | blockStart b => rfl
  | blockSection text =>
      simp only [step, blockSection]
      split <;> rfl
  | blockEnd =>
      have htail : (st.step s roster index .blockEnd).state.openBlocks = st.openBlocks.tail := by
        simp only [step, blockEnd]
        split
        · next h => rw [h]; rfl
        · exact openBlocks_closeBlock _ _ _
      rw [htail, List.length_tail]
      rfl

omit [Scalar α] in
/-- The open activations with those of one participant changed, if there is such a participant. -/
def changeAt (roster : Roster α) (running : Array (List Nat)) (id : Ident)
    (f : List Nat → List Nat) : Array (List Nat) :=
  match roster.columnOf? id with
  | none => running
  | some column => running.modify column f

omit [Scalar α] in
/-- The open activations after an event; a new one has the number `fresh`. -/
def runningAfter (roster : Roster α) (fresh : Nat) (running : Array (List Nat)) :
    Event → Array (List Nat)
  | .activate id => changeAt roster running id (fresh :: ·)
  | .deactivate id => changeAt roster running id List.tail
  | _ => running

omit [Scalar α] in
lemma running_activate (st : State α) (index : Nat) (id : Ident) :
    (st.activate roster index id).1.running =
      changeAt roster st.running id (st.activations.size :: ·) := by
  rw [activate, changeAt]
  cases roster.columnOf? id with
  | none => rfl
  | some column =>
      have hsize := congrArg (fun p => p.activations.size) (progress_touch st column)
      simp only [running_touch]
      rw [show (st.touch column).activations.size = st.activations.size from hsize]

lemma running_deactivate (st : State α) (index : Nat) (id : Ident) :
    (st.deactivate s roster index id).1.running = changeAt roster st.running id List.tail := by
  rw [deactivate, changeAt]
  cases roster.columnOf? id with
  | none => rfl
  | some column =>
      have htouch := running_touch st column
      dsimp only
      generalize st.touch column = touched at htouch ⊢
      rw [← htouch]
      cases hstack : touched.running.getD column [] with
      | nil =>
          have hsame : touched.running.modify column (fun stack => stack) = touched.running := by
            simp [Array.ext_iff, Array.getElem_modify]
          refine hsame.symm.trans (modify_congr [] ?_)
          rw [hstack]
          rfl
      | cons activation rest =>
          refine (running_closeActivation _ _ _ _).trans ?_
          refine Eq.trans ?_ (modify_congr (f := fun _ => rest) [] (by rw [hstack]; rfl))
          split <;> rfl

/-- An event opens an activation, ends the latest one of a participant, or leaves them as they
are. -/
lemma running_step (st : State α) (index : Nat) (event : Event) :
    (st.step s roster index event).state.running =
      runningAfter roster st.activations.size st.running event := by
  cases event with
  | message m => exact running_touchAll st _
  | activate id => exact running_activate st index id
  | deactivate id => exact running_deactivate st index id
  | note n => exact running_touchAll st _
  | divider text => rfl
  | delay text => rfl
  | blockStart b => rfl
  | blockSection text =>
      simp only [step, blockSection]
      split <;> rfl
  | blockEnd =>
      simp only [step, blockEnd]
      split
      · rfl
      · exact congrArg Progress.running (progress_closeBlock _ _ _)

omit [Scalar α] in
lemma size_changeAt (running : Array (List Nat)) (id : Ident) (f : List Nat → List Nat) :
    (changeAt roster running id f).size = running.size := by
  rw [changeAt]
  split
  · rfl
  · exact Array.size_modify

/-- There is a stack for each column. -/
lemma size_running_step (st : State α) (index : Nat) (event : Event) :
    (st.step s roster index event).state.running.size = st.running.size := by
  rw [running_step]
  cases event with
  | activate id => exact size_changeAt _ _ _
  | deactivate id => exact size_changeAt _ _ _
  | _ => rfl

omit [Scalar α] in
/-- A participant has a column of its own. -/
lemma eq_of_columnOf? {id other : Ident} {column : Nat} (h : roster.columnOf? id = some column)
    (hother : roster.columnOf? other = some column) : other = id := by
  simp only [Roster.columnOf?, Declared.indexOf?, List.findIdx?_eq_some_iff_getElem,
    beq_iff_eq] at h hother
  obtain ⟨_, hid, _⟩ := h
  obtain ⟨_, hother, _⟩ := hother
  exact hother.symm.trans hid

omit [Scalar α] in
lemma getD_changeAt {id : Ident} {column : Nat} (hcolumn : roster.columnOf? id = some column)
    {running : Array (List Nat)} (hsize : running.size = roster.length) (other : Ident)
    (f : List Nat → List Nat) :
    (changeAt roster running other f).getD column [] =
      if other = id then f (running.getD column []) else running.getD column [] := by
  rw [changeAt]
  split
  · next hnone =>
      rw [if_neg]
      rintro rfl
      rw [hcolumn] at hnone
      cases hnone
  · next c hc =>
      rw [getD_modify_of_lt (hsize ▸ columnOf?_lt hc)]
      by_cases heq : other = id
      · subst heq
        rw [if_pos (Option.some.inj (hc.symm.trans hcolumn)), if_pos rfl]
      · rw [if_neg heq, if_neg]
        rintro rfl
        exact heq (eq_of_columnOf? hcolumn hc)

/-- The height of a participant's stack follows the marks of that participant. -/
lemma runningAt_step {id : Ident} {column : Nat} (hcolumn : roster.columnOf? id = some column)
    (hsize : st.running.size = roster.length) (index : Nat) (event : Event) :
    (st.step s roster index event).state.runningAt column =
      Mark.openAfter (st.runningAt column) (event.activityMark id).toList := by
  rw [runningAt, running_step]
  cases event with
  | activate other =>
      rw [runningAfter, getD_changeAt hcolumn hsize, Event.activityMark]
      split <;> rfl
  | deactivate other =>
      rw [runningAfter, getD_changeAt hcolumn hsize, Event.activityMark]
      split
      · exact List.length_tail
      · rfl
  | _ => rfl

/-! ### What is reported -/

omit [Scalar α] in
/-- The end of an activation that was never opened. -/
def strayStop (roster : Roster α) (st : State α) (index : Nat) : Event → List (Diagnostic α)
  | .deactivate id =>
    if (roster.columnOf? id).any fun column => st.runningAt column = 0 then
      [.activationUnderflow index id]
    else []
  | _ => []

omit [Scalar α] in
/-- A section or an end for which no block is open. -/
def strayBlock (st : State α) (index : Nat) : Event → List (Diagnostic α)
  | .blockSection _ => if st.openBlocks = [] then [.strayBlockSection index] else []
  | .blockEnd => if st.openBlocks = [] then [.strayBlockEnd index] else []
  | _ => []

lemma faults_deactivate (st : State α) (index : Nat) (id : Ident) :
    (st.deactivate s roster index id).2.2 = st.strayStop roster index (.deactivate id) := by
  rw [deactivate, strayStop]
  cases roster.columnOf? id with
  | none => rfl
  | some column =>
      simp only [runningAt, Option.any_some, decide_eq_true_eq, List.length_eq_zero_iff,
        ← running_touch st column]
      split
      · next hnone => exact (if_pos hnone).symm
      · next hsome => exact (if_neg (by rw [hsome]; exact List.cons_ne_nil _ _)).symm

/-- An event reports the references that name nobody, and then what is stray. -/
lemma diagnostics_step (st : State α) (index : Nat) (event : Event) :
    (st.step s roster index event).diagnostics =
      unknown roster index event ++ st.strayStop roster index event ++
        st.strayBlock index event := by
  cases event with
  | deactivate id =>
      rw [← faults_deactivate (s := s)]
      exact (List.append_nil _).symm
  | blockSection text =>
      simp only [step, blockSection, strayBlock, strayStop, List.append_nil]
      split
      · next hnone => rw [if_pos hnone]
      · next hsome => rw [if_neg (hsome ▸ List.cons_ne_nil _ _)]
  | blockEnd =>
      simp only [step, blockEnd, strayBlock, strayStop, List.append_nil]
      split
      · next hnone => rw [if_pos hnone]
      · next hsome => rw [if_neg hsome]
  | _ => exact (List.append_nil _).symm.trans (List.append_nil _).symm

omit [Scalar α] in
lemma kind_unknown (index : Nat) (event : Event) :
    ∀ d ∈ unknown roster index event, d.kind = .participantNotFound :=
  List.forall_mem_map.mpr fun _ _ => rfl

omit [Scalar α] in
lemma kind_strayStop (st : State α) (index : Nat) (event : Event) :
    ∀ d ∈ st.strayStop roster index event, d.kind = .activationUnderflow := by
  cases event with
  | deactivate id =>
      rw [strayStop]
      split <;> simp [Diagnostic.kind]
  | _ => exact fun _ h => absurd h List.not_mem_nil

omit [Scalar α] in
lemma kind_strayBlock (st : State α) (index : Nat) (event : Event) :
    ∀ d ∈ st.strayBlock index event, d.kind = .unbalancedBlock := by
  cases event with
  | blockSection text =>
      rw [strayBlock]
      split <;> simp [Diagnostic.kind]
  | blockEnd =>
      rw [strayBlock]
      split <;> simp [Diagnostic.kind]
  | _ => exact fun _ h => absurd h List.not_mem_nil

omit [Scalar α] in
/-- A stop of a participant is stray if none of its activations is open. -/
lemma count_strayStop {id : Ident} {column : Nat} (hcolumn : roster.columnOf? id = some column)
    (st : State α) (index : Nat) (event : Event) :
    ((st.strayStop roster index event).map (·.subject)).count (some id) =
      Mark.looseStops (event.activityMark id).toList - st.runningAt column := by
  cases event with
  | activate other =>
      rw [Event.activityMark]
      split <;> exact (Nat.zero_sub _).symm
  | deactivate other =>
      rw [strayStop, Event.activityMark]
      by_cases heq : other = id
      · subst heq
        rw [if_pos rfl, hcolumn, Option.any_some]
        cases hrunning : st.runningAt column with
        | zero => simp [Diagnostic.subject, Mark.looseStops]
        | succ n => simp [Mark.looseStops]
      · rw [if_neg heq]
        split <;> simp [Diagnostic.subject, Mark.looseStops, heq]
  | _ => exact (Nat.zero_sub _).symm

omit [Scalar α] in
lemma of_mem_strayStop {d : Diagnostic α} {event : Event}
    (h : d ∈ st.strayStop roster index event) :
    ∃ id, (roster.columnOf? id).isSome ∧ d.subject = some id := by
  cases event with
  | deactivate id =>
      rw [strayStop] at h
      split at h
      · next hany =>
          rw [List.mem_singleton] at h
          refine ⟨id, ?_, congrArg Diagnostic.subject h⟩
          cases hcolumn : roster.columnOf? id with
          | none => simp [hcolumn] at hany
          | some column => rfl
      · exact absurd h List.not_mem_nil
  | _ => exact absurd h List.not_mem_nil

omit [Scalar α] in
/-- An end of a block, and a section, are stray if no block is open. -/
lemma length_strayBlock (st : State α) (index : Nat) (event : Event) :
    (st.strayBlock index event).length =
      Mark.looseStops event.blockMark.toList - st.openBlocks.length +
        if event.isSection && st.openBlocks.length == 0 then 1 else 0 := by
  cases event with
  | blockSection text =>
      rw [strayBlock]
      cases st.openBlocks with
      | nil => rfl
      | cons block rest => simp [Event.blockMark, Mark.looseStops]
  | blockEnd =>
      rw [strayBlock]
      cases st.openBlocks with
      | nil => rfl
      | cons block rest => simp [Event.blockMark, Event.isSection, Mark.looseStops]
  | blockStart header => simp [strayBlock, Event.blockMark, Event.isSection, Mark.looseStops]
  | _ => exact (Nat.zero_sub _).symm

/-! ### All events -/

lemma size_running_run (st : State α) (index : Nat) (events : List Event) :
    (st.run s roster index events).1.running.size = st.running.size := by
  induction events generalizing st index with
  | nil => rfl
  | cons event events ih => exact (ih _ _).trans (size_running_step st index event)

/-- The height of a participant's stack after a list of events. -/
lemma runningAt_run {id : Ident} {column : Nat} (hcolumn : roster.columnOf? id = some column)
    (hsize : st.running.size = roster.length) (index : Nat) (events : List Event) :
    (st.run s roster index events).1.runningAt column =
      Mark.openAfter (st.runningAt column) (events.filterMap (Event.activityMark id)) := by
  induction events generalizing st index with
  | nil => rfl
  | cons event events ih =>
      calc (st.run s roster index (event :: events)).1.runningAt column
        _ = Mark.openAfter ((st.step s roster index event).state.runningAt column)
              (events.filterMap (Event.activityMark id)) :=
          ih ((size_running_step st index event).trans hsize) _
        _ = Mark.openAfter (st.runningAt column)
              ((event.activityMark id).toList ++ events.filterMap (Event.activityMark id)) := by
          rw [runningAt_step hcolumn hsize, Mark.openAfter_append]
        _ = _ := by rw [Mark.filterMap_cons]

/-- The number of blocks that are open after a list of events. -/
lemma length_openBlocks_run (st : State α) (index : Nat) (events : List Event) :
    (st.run s roster index events).1.openBlocks.length =
      Mark.openAfter st.openBlocks.length (events.filterMap Event.blockMark) := by
  induction events generalizing st index with
  | nil => rfl
  | cons event events ih =>
      calc (st.run s roster index (event :: events)).1.openBlocks.length
        _ = Mark.openAfter (st.step s roster index event).state.openBlocks.length
              (events.filterMap Event.blockMark) := ih _ _
        _ = Mark.openAfter st.openBlocks.length
              (event.blockMark.toList ++ events.filterMap Event.blockMark) := by
          rw [length_openBlocks_step, Mark.openAfter_append]
        _ = _ := by rw [Mark.filterMap_cons]

/-- A walk reports the faults of the first event and then those of the others. -/
lemma subjects_run_cons (kind : Diagnostic.Kind) (st : State α) (index : Nat) (event : Event)
    (events : List Event) :
    subjects kind (st.run s roster index (event :: events)).2.2 =
      (if .participantNotFound = kind then (unknown roster index event).map (·.subject) else []) ++
        (if .activationUnderflow = kind then
          (st.strayStop roster index event).map (·.subject) else []) ++
        (if .unbalancedBlock = kind then (st.strayBlock index event).map (·.subject) else []) ++
        subjects kind
          ((st.step s roster index event).state.run s roster (index + 1) events).2.2 := by
  rw [← Diagnostic.subjects_of_kind (kind_unknown index event),
    ← Diagnostic.subjects_of_kind (kind_strayStop st index event),
    ← Diagnostic.subjects_of_kind (kind_strayBlock st index event),
    ← Diagnostic.subjects_append, ← Diagnostic.subjects_append, ← diagnostics_step (s := s),
    ← Diagnostic.subjects_append]
  rfl

/-- The references that name nobody. -/
lemma subjects_unknown_run (st : State α) (index : Nat) (events : List Event) :
    subjects .participantNotFound (st.run s roster index events).2.2 =
      ((events.flatMap Event.participants).filter fun id =>
        (roster.columnOf? id).isNone).map some := by
  induction events generalizing st index with
  | nil => rfl
  | cons event events ih =>
      rw [subjects_run_cons, ih, if_pos rfl, if_neg (by decide), if_neg (by decide),
        List.append_nil,
        List.append_nil, List.flatMap_cons, List.filter_append, List.map_append, unknown,
        List.map_map]
      rfl

/-- The stray ends of a participant's activations. -/
lemma count_strayStop_run {id : Ident} {column : Nat} (hcolumn : roster.columnOf? id = some column)
    (hsize : st.running.size = roster.length) (index : Nat) (events : List Event) :
    (subjects .activationUnderflow (st.run s roster index events).2.2).count (some id) =
      Mark.looseStops (events.filterMap (Event.activityMark id)) - st.runningAt column := by
  induction events generalizing st index with
  | nil => exact (Nat.zero_sub _).symm
  | cons event events ih =>
      rw [subjects_run_cons, if_neg (by decide), if_pos rfl, if_neg (by decide), List.nil_append,
        List.append_nil, List.count_append, count_strayStop hcolumn,
        ih ((size_running_step st index event).trans hsize), runningAt_step hcolumn hsize,
        Mark.filterMap_cons, Mark.looseStops_append_sub]

/-- Stray ends of activations are reported of participants. -/
lemma of_mem_strayStop_run {st : State α} {index : Nat} {events : List Event}
    {subject : Option Ident}
    (h : subject ∈ subjects .activationUnderflow (st.run s roster index events).2.2) :
    ∃ id, (roster.columnOf? id).isSome ∧ subject = some id := by
  induction events generalizing st index with
  | nil => exact absurd h List.not_mem_nil
  | cons event events ih =>
      rw [subjects_run_cons, if_neg (by decide), if_pos rfl, if_neg (by decide), List.nil_append,
        List.append_nil, List.mem_append] at h
      rcases h with h | h
      · obtain ⟨d, hd, rfl⟩ := List.mem_map.mp h
        exact of_mem_strayStop hd
      · exact ih h

omit [Scalar α] in
/-- The sections before which no block is open, if some are open before the events. -/
def outerSections (before : Nat) (events : List Event) : Nat :=
  events.zipIdx.countP fun entry =>
    entry.1.isSection &&
      Mark.openAfter before ((events.take entry.2).filterMap Event.blockMark) == 0

lemma outerSections_cons (before : Nat) (event : Event) (events : List Event) :
    outerSections before (event :: events) =
      (if event.isSection && before == 0 then 1 else 0) +
        outerSections (Mark.openAfter before event.blockMark.toList) events := by
  rw [outerSections, List.zipIdx_cons', List.countP_cons, List.countP_map, Nat.add_comm]
  congr 1
  refine List.countP_congr fun entry _ => ?_
  simp [Mark.filterMap_cons, Mark.openAfter_append]

/-- The stray ends and sections of blocks. -/
lemma length_strayBlock_run (st : State α) (index : Nat) (events : List Event) :
    (subjects .unbalancedBlock (st.run s roster index events).2.2).length =
      Mark.looseStops (events.filterMap Event.blockMark) - st.openBlocks.length +
        outerSections st.openBlocks.length events := by
  induction events generalizing st index with
  | nil => exact (Nat.zero_sub _).symm
  | cons event events ih =>
      rw [subjects_run_cons, if_neg (by decide), if_neg (by decide), if_pos rfl, List.append_nil,
        List.nil_append, List.length_append, List.length_map, length_strayBlock, ih,
        length_openBlocks_step, Mark.filterMap_cons, Mark.looseStops_append_sub, outerSections_cons]
      omega

/-- Nothing else is reported on the way. -/
lemma kind_of_mem_run {st : State α} {index : Nat} {events : List Event} {d : Diagnostic α}
    (h : d ∈ (st.run s roster index events).2.2) :
    d.kind = .participantNotFound ∨ d.kind = .activationUnderflow ∨ d.kind = .unbalancedBlock := by
  induction events generalizing st index with
  | nil => exact absurd h List.not_mem_nil
  | cons event events ih =>
      rcases List.mem_append.mp h with h | h
      · rw [diagnostics_step, List.mem_append, List.mem_append] at h
        rcases h with (h | h) | h
        · exact Or.inl (kind_unknown index event d h)
        · exact Or.inr (Or.inl (kind_strayStop st index event d h))
        · exact Or.inr (Or.inr (kind_strayBlock st index event d h))
      · exact ih h

/-! ### Before the first event and after the last -/

lemma runningAt_start (roster : Roster α) (column : Nat) :
    (start roster).runningAt column = 0 := by
  rw [runningAt, start, Array.getD_eq_getD_getElem?, Array.getElem?_replicate]
  split <;> rfl

omit [Scalar α] in
/-- What is open after the last event is reported. -/
lemma subjects_unclosed (kind : Diagnostic.Kind) (st : State α) :
    subjects kind (st.unclosed roster) =
      (if .unclosedActivation = kind then
        (roster.zip st.running.toList).flatMap fun entry =>
          List.replicate entry.2.length (some entry.1.id) else []) ++
        if .unbalancedBlock = kind then List.replicate st.openBlocks.length none else [] := by
  rw [unclosed, Diagnostic.subjects_append,
    Diagnostic.subjects_flatMap .unclosedActivation fun _ _ => rfl,
    Diagnostic.subjects_map .unbalancedBlock fun _ => rfl]
  simp only [Diagnostic.subject, List.map_const']

end State

end Drafting.Sequence
