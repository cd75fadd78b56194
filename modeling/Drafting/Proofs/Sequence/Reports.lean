import Mathlib
import Drafting.Proofs.Sequence.Faults

/-!
What is reported of a sequence diagram.

* `Model.Reports`: each fault is reported once, and nothing else is.
* `Model.WellFormed`, `Model.Reports.eq_nil_iff`: nothing is reported exactly of a diagram that is
  well formed.
* `Layout.reports_ofModel`: so it is when a diagram is laid out.
* `Diagram.sequence_faults_are_reported`: so it is in a drawing.
-/

namespace Drafting.Sequence

open scoped List
open Diagnostic (subjects)

/-! ### Faults and reports -/

/-- A lifetime that fits a number of events: both ends are events, and it ends after it begins. -/
def Lifetime.Fits (l : Lifetime) (events : Nat) : Prop :=
  (∀ c ∈ l.createdAt, c < events) ∧ (∀ d ∈ l.destroyedAt, d < events) ∧
    ∀ c ∈ l.createdAt, ∀ d ∈ l.destroyedAt, c ≤ d

lemma Lifetime.fits_iff {l : Lifetime} {events : Nat} : l.fits events = true ↔ l.Fits events := by
  obtain ⟨created, destroyed⟩ := l
  cases created <;> cases destroyed <;> simp [fits, Fits, and_assoc]

instance (l : Lifetime) (events : Nat) : Decidable (l.Fits events) :=
  decidable_of_iff _ Lifetime.fits_iff

namespace Model

variable {α : Type}

/-- The first declarations of the participants. -/
def distinctParticipants (m : Model) : List Participant :=
  Declared.firsts Participant.id m.participants

/-- Each fault of a diagram is reported once, and nothing else is. -/
structure Reports (m : Model) (ds : List (Diagnostic α)) : Prop where
  /-- Declarations of a participant that is declared already. -/
  duplicates : (subjects .duplicateId ds).length = m.participants.length - m.names.length
  /-- Lifetimes that do not fit. -/
  lifetimes : subjects .invalidLifetime ds ~
    (m.distinctParticipants.filter fun p => ¬ p.lifetime.Fits m.events.length).map (some ·.id)
  /-- References to a participant that is not declared. -/
  references : subjects .participantNotFound ds =
    ((m.events.flatMap Event.participants).filter (· ∉ m.names)).map some
  /-- Ends of activations that are not matched by a start. -/
  underflows : subjects .activationUnderflow ds ~
    m.names.flatMap fun id => List.replicate (Mark.looseStops (m.activity id)) (some id)
  /-- Starts of activations that are not matched by an end. -/
  unclosed : subjects .unclosedActivation ds ~
    m.names.flatMap fun id => List.replicate (Mark.looseStarts (m.activity id)) (some id)
  /-- Ends of blocks that are not matched, sections outside of blocks, and starts of blocks that
  are not matched. -/
  blocks : (subjects .unbalancedBlock ds).length =
    Mark.looseStops m.blockMarks + m.outerSections + Mark.looseStarts m.blockMarks
  /-- Faults of other diagrams. -/
  others : ∀ kind ∈ [.nodeNotFound, .clusterNotFound, .clusterCycle, .invalidSize],
    subjects kind ds = []

/-- A diagram without faults. -/
structure WellFormed (m : Model) : Prop where
  /-- Participants have different names. -/
  names : (m.participants.map (·.id)).Nodup
  /-- Lifetimes fit the events. -/
  lifetimes : ∀ p ∈ m.participants, p.lifetime.Fits m.events.length
  /-- Events refer to participants. -/
  references : ∀ event ∈ m.events, ∀ id ∈ event.participants, id ∈ m.participants.map (·.id)
  /-- The activations of each participant are matched. -/
  activity : ∀ p ∈ m.participants, Mark.Matched (m.activity p.id)
  /-- Blocks are matched. -/
  blocks : Mark.Matched m.blockMarks
  /-- Sections lie in blocks. -/
  sections : m.outerSections = 0

lemma map_distinctParticipants (m : Model) : m.distinctParticipants.map (·.id) = m.names :=
  Declared.map_firsts _ _

lemma mem_names {m : Model} {id : Ident} : id ∈ m.names ↔ id ∈ m.participants.map (·.id) :=
  List.mem_eraseDups

namespace Reports

variable {m : Model} {ds : List (Diagnostic α)} (h : m.Reports ds)

include h

lemma duplicates_eq_nil_iff :
    subjects .duplicateId ds = [] ↔ (m.participants.map (·.id)).Nodup := by
  rw [← Declared.repeated_eq_nil_iff, ← Declared.map_repeats, List.map_eq_nil_iff,
    ← List.length_eq_zero_iff, ← List.length_eq_zero_iff, h.duplicates,
    ← map_distinctParticipants, List.length_map, distinctParticipants,
    ← Declared.length_repeats Participant.id m.participants, Nat.add_sub_cancel]

lemma lifetimes_eq_nil_iff (hnames : (m.participants.map (·.id)).Nodup) :
    subjects .invalidLifetime ds = [] ↔ ∀ p ∈ m.participants, p.lifetime.Fits m.events.length := by
  rw [Diagnostic.eq_nil_iff_of_perm h.lifetimes, List.map_eq_nil_iff, List.filter_eq_nil_iff,
    distinctParticipants, Declared.firsts_of_nodup hnames]
  simp

lemma references_eq_nil_iff :
    subjects .participantNotFound ds = [] ↔
      ∀ event ∈ m.events, ∀ id ∈ event.participants, id ∈ m.participants.map (·.id) := by
  simp only [h.references, List.map_eq_nil_iff, List.filter_eq_nil_iff, List.mem_flatMap, mem_names,
    decide_eq_true_eq, not_not, forall_exists_index, and_imp]
  exact ⟨fun hall event hevent id => hall id event hevent, fun hall id event hevent =>
    hall event hevent id⟩

lemma activity_eq_nil_iff :
    subjects .activationUnderflow ds = [] ∧ subjects .unclosedActivation ds = [] ↔
      ∀ p ∈ m.participants, Mark.Matched (m.activity p.id) := by
  rw [Diagnostic.eq_nil_iff_of_perm h.underflows, Diagnostic.eq_nil_iff_of_perm h.unclosed,
    List.flatMap_eq_nil_iff, List.flatMap_eq_nil_iff]
  simp [Mark.matched_iff, mem_names, forall_and]

lemma blocks_eq_nil_iff :
    subjects .unbalancedBlock ds = [] ↔ Mark.Matched m.blockMarks ∧ m.outerSections = 0 := by
  rw [← List.length_eq_zero_iff, h.blocks, Mark.matched_iff]
  omega

/-- Nothing is reported exactly of a diagram that is well formed. -/
lemma eq_nil_iff : ds = [] ↔ m.WellFormed := by
  rw [Diagnostic.eq_nil_iff_subjects]
  constructor
  · intro hnone
    have hnames := h.duplicates_eq_nil_iff.mp (hnone _)
    obtain ⟨hblocks, hsections⟩ := h.blocks_eq_nil_iff.mp (hnone _)
    exact ⟨hnames, (h.lifetimes_eq_nil_iff hnames).mp (hnone _),
      h.references_eq_nil_iff.mp (hnone _), h.activity_eq_nil_iff.mp ⟨hnone _, hnone _⟩, hblocks,
      hsections⟩
  · intro hm kind
    cases kind with
    | duplicateId => exact h.duplicates_eq_nil_iff.mpr hm.names
    | invalidLifetime => exact (h.lifetimes_eq_nil_iff hm.names).mpr hm.lifetimes
    | participantNotFound => exact h.references_eq_nil_iff.mpr hm.references
    | activationUnderflow => exact (h.activity_eq_nil_iff.mpr hm.activity).1
    | unclosedActivation => exact (h.activity_eq_nil_iff.mpr hm.activity).2
    | unbalancedBlock => exact h.blocks_eq_nil_iff.mpr ⟨hm.blocks, hm.sections⟩
    | _ => exact h.others _ (by simp)

end Reports

end Model

/-! ### The roster -/

section Roster

variable {α : Type} [Scalar α] {s : Setting α} {m : Model}

lemma Model.ordered_perm (m : Model) : m.ordered ~ m.distinctParticipants := List.mergeSort_perm _ _

lemma map_id_roster (s : Setting α) (m : Model) :
    (Roster.ofModel s m).map Column.id = m.ordered.map Participant.id := by
  rw [Roster.ofModel, List.map_map]
  rfl

/-- The columns belong to the participants, one to each. -/
lemma map_id_roster_perm (s : Setting α) (m : Model) :
    (Roster.ofModel s m).map Column.id ~ m.names := by
  rw [map_id_roster, ← Model.map_distinctParticipants]
  exact m.ordered_perm.map _

lemma Model.nodup_names (m : Model) : m.names.Nodup := by
  rw [← map_distinctParticipants]
  exact Declared.nodup_firsts _ _

lemma Model.nodup_ids_ordered (m : Model) : (m.ordered.map Participant.id).Nodup := by
  rw [(m.ordered_perm.map _).nodup_iff, map_distinctParticipants]
  exact m.nodup_names

/-- Every name has one column. -/
lemma Model.eq_of_id_eq (m : Model) {p q : Participant} (hp : p ∈ m.ordered) (hq : q ∈ m.ordered)
    (h : p.id = q.id) : p = q :=
  List.inj_on_of_nodup_map m.nodup_ids_ordered hp hq h

lemma nodup_roster (s : Setting α) (m : Model) : ((Roster.ofModel s m).map Column.id).Nodup :=
  (map_id_roster_perm s m).nodup_iff.mpr m.nodup_names

lemma columnOf?_isNone {id : Ident} :
    ((Roster.ofModel s m).columnOf? id).isNone = true ↔ id ∉ m.names := by
  rw [Roster.columnOf?, Declared.indexOf?_isNone, (map_id_roster_perm s m).mem_iff]

lemma exists_column {id : Ident} (h : id ∈ m.names) :
    ∃ column, (Roster.ofModel s m).columnOf? id = some column := by
  cases hcolumn : (Roster.ofModel s m).columnOf? id with
  | none => exact absurd h (columnOf?_isNone.mp (Option.isNone_iff_eq_none.mpr hcolumn))
  | some column => exact ⟨column, rfl⟩

end Roster

/-! ### The layout -/

section Layout

variable {α : Type} [Scalar α] (s : Setting α) (m : Model)

/-- The state after the last event. -/
def lastState : State α :=
  ((State.start (Roster.ofModel s m)).run s (Roster.ofModel s m) 0 m.events).1

/-- What is reported on the way. -/
def onTheWay : List (Diagnostic α) :=
  ((State.start (Roster.ofModel s m)).run s (Roster.ofModel s m) 0 m.events).2.2

lemma size_running_lastState : (lastState s m).running.size = (Roster.ofModel s m).length :=
  (State.size_running_run _ _ _).trans Array.size_replicate

/-- The activations that are open after the last event. -/
lemma runningAt_lastState {id : Ident} {column : Nat}
    (h : (Roster.ofModel s m).columnOf? id = some column) :
    (lastState s m).runningAt column = Mark.looseStarts (m.activity id) := by
  rw [lastState, State.runningAt_run h Array.size_replicate, State.runningAt_start, Mark.openAfter,
    Nat.zero_sub, Nat.zero_add]
  rfl

/-- The blocks that are open after the last event. -/
lemma length_openBlocks_lastState :
    (lastState s m).openBlocks.length = Mark.looseStarts m.blockMarks := by
  rw [lastState, State.length_openBlocks_run]
  exact (congrArg (· + _) (Nat.zero_sub _)).trans (Nat.zero_add _)

omit [Scalar α] in
lemma subjects_roster (kind : Diagnostic.Kind) :
    subjects kind (Roster.diagnostics m : List (Diagnostic α)) =
      (if .duplicateId = kind then
        (Declared.repeats Participant.id m.participants).map (some ·.id) else []) ++
        if .invalidLifetime = kind then
          (m.ordered.filter fun p => !p.lifetime.fits m.events.length).map (some ·.id)
        else [] := by
  rw [Roster.diagnostics, Diagnostic.subjects_append,
    Diagnostic.subjects_map .duplicateId fun _ => rfl,
    Diagnostic.subjects_map .invalidLifetime fun _ => rfl]
  rfl

/-- The stray ends of activations, participant by participant. -/
lemma underflows_perm :
    subjects .activationUnderflow (onTheWay s m) ~
      m.names.flatMap fun id => List.replicate (Mark.looseStops (m.activity id)) (some id) := by
  refine Diagnostic.perm_replicates m.nodup_names (fun id hid => ?_) fun subject hsubject => ?_
  · obtain ⟨column, hcolumn⟩ := exists_column (s := s) hid
    rw [onTheWay, State.count_strayStop_run hcolumn Array.size_replicate, State.runningAt_start]
    rfl
  · obtain ⟨id, hsome, rfl⟩ := State.of_mem_strayStop_run hsubject
    refine ⟨id, ?_, rfl⟩
    by_contra hid
    rw [← columnOf?_isNone (s := s), Option.isNone_iff_eq_none] at hid
    simp [hid] at hsome

/-- The activations that are never closed, participant by participant. -/
lemma unclosed_perm :
    subjects .unclosedActivation ((lastState s m).unclosed (Roster.ofModel s m)) ~
      m.names.flatMap fun id => List.replicate (Mark.looseStarts (m.activity id)) (some id) := by
  have hnodup := nodup_roster s m
  have hlength : (Roster.ofModel s m).length ≤ (lastState s m).running.toList.length :=
    (size_running_lastState s m).ge
  rw [State.subjects_unclosed, if_pos rfl, if_neg (by decide), List.append_nil]
  -- a column's stack is as high as its participant's starts are unmatched
  have hstack : ∀ entry ∈ (Roster.ofModel s m).zip (lastState s m).running.toList,
      List.replicate entry.2.length (some entry.1.id) =
        List.replicate (Mark.looseStarts (m.activity entry.1.id)) (some entry.1.id) := by
    intro entry hentry
    obtain ⟨i, hi, rfl⟩ := List.getElem_of_mem hentry
    rw [List.length_zip, Nat.lt_min] at hi
    have hheight := runningAt_lastState s m (Declared.indexOf?_getElem hnodup hi.1)
    have hsize : i < (lastState s m).running.size := hi.2
    rw [List.getElem_zip, ← hheight, State.runningAt, Array.getD_eq_getD_getElem?,
      Array.getElem?_eq_getElem hsize]
    rfl
  calc (((Roster.ofModel s m).zip (lastState s m).running.toList).flatMap fun entry =>
        List.replicate entry.2.length (some entry.1.id))
    _ = (((Roster.ofModel s m).zip (lastState s m).running.toList).map fun entry =>
          entry.1.id).flatMap fun id =>
            List.replicate (Mark.looseStarts (m.activity id)) (some id) := by
      rw [List.flatMap_congr hstack, List.flatMap_map]
    _ = ((Roster.ofModel s m).map Column.id).flatMap fun id =>
          List.replicate (Mark.looseStarts (m.activity id)) (some id) := by
      have hfst := congrArg (List.map Column.id) (List.map_fst_zip hlength)
      rw [List.map_map] at hfst
      exact congrArg _ hfst
    _ ~ m.names.flatMap fun id =>
          List.replicate (Mark.looseStarts (m.activity id)) (some id) :=
      (map_id_roster_perm s m).flatMap_right _

lemma outerSections_eq : State.outerSections 0 m.events = m.outerSections := by
  simp only [State.outerSections, Model.outerSections, Mark.openAfter, Nat.zero_sub, Nat.zero_add]

/-- Three kinds of faults are found on the way. -/
lemma subjects_onTheWay {kind : Diagnostic.Kind}
    (h : kind ∉ [.participantNotFound, .activationUnderflow, .unbalancedBlock]) :
    subjects kind (onTheWay s m) = [] := by
  rw [List.eq_nil_iff_forall_not_mem]
  intro subject hsubject
  obtain ⟨d, hd, rfl, _⟩ := Diagnostic.mem_subjects.mp hsubject
  rcases State.kind_of_mem_run hd with hkind | hkind | hkind <;>
    exact h (by simp [hkind])

/-- What is reported of a diagram: of its participants, of its events, and at the end. -/
def reported : List (Diagnostic α) :=
  Roster.diagnostics m ++ (onTheWay s m ++ (lastState s m).unclosed (Roster.ofModel s m))

lemma subjects_reported (kind : Diagnostic.Kind) :
    subjects kind (reported s m) =
      subjects kind (Roster.diagnostics m : List (Diagnostic α)) ++
        (subjects kind (onTheWay s m) ++
          subjects kind ((lastState s m).unclosed (Roster.ofModel s m))) := by
  rw [reported, Diagnostic.subjects_append, Diagnostic.subjects_append]

/-- **Each fault of a diagram is reported once, and nothing else is.** -/
lemma reports_reported : m.Reports (reported s m) where
  duplicates := by
    have hcount := Declared.length_repeats Participant.id m.participants
    have hnames := congrArg List.length (Model.map_distinctParticipants m)
    rw [List.length_map, Model.distinctParticipants] at hnames
    rw [subjects_reported, subjects_roster, subjects_onTheWay s m (by decide),
      State.subjects_unclosed]
    simp only [if_true, reduceCtorEq, if_false, List.append_nil, List.length_map]
    omega
  lifetimes := by
    rw [subjects_reported, subjects_roster, subjects_onTheWay s m (by decide),
      State.subjects_unclosed]
    simp only [if_true, reduceCtorEq, if_false, List.append_nil, List.nil_append]
    refine List.Perm.map _ ?_
    have hfits : (fun p : Participant => !p.lifetime.fits m.events.length) =
        fun p => decide (¬ p.lifetime.Fits m.events.length) := by
      funext p
      simp [← Lifetime.fits_iff]
    rw [hfits]
    exact m.ordered_perm.filter _
  references := by
    rw [subjects_reported, subjects_roster, State.subjects_unclosed, onTheWay,
      State.subjects_unknown_run]
    simp only [reduceCtorEq, if_false, List.append_nil, List.nil_append]
    congr 2
    funext id
    rw [Bool.eq_iff_iff, columnOf?_isNone, decide_eq_true_eq]
  underflows := by
    rw [subjects_reported, subjects_roster, State.subjects_unclosed]
    simp only [reduceCtorEq, if_false, List.append_nil, List.nil_append]
    exact underflows_perm s m
  unclosed := by
    rw [subjects_reported, subjects_roster, subjects_onTheWay s m (by decide)]
    simp only [reduceCtorEq, if_false, List.nil_append]
    exact unclosed_perm s m
  blocks := by
    rw [subjects_reported, subjects_roster, State.subjects_unclosed]
    simp only [if_true, reduceCtorEq, if_false, List.nil_append, List.length_append,
      List.length_replicate, length_openBlocks_lastState]
    rw [onTheWay, State.length_strayBlock_run, ← outerSections_eq]
    rfl
  others := by
    intro kind hkind
    rw [subjects_reported, subjects_roster, State.subjects_unclosed]
    simp only [List.mem_cons, List.not_mem_nil, or_false] at hkind
    rcases hkind with rfl | rfl | rfl | rfl <;>
    · rw [subjects_onTheWay s m (by decide)]
      rfl

end Layout

/-- **Each fault of a diagram that is laid out is reported once, and nothing else is.** -/
lemma Layout.reports_ofModel {α : Type} [Scalar α] {s : Setting α} {m : Model} {l : Layout α}
    {diagnostics : List (Diagnostic α)} (h : ofModel s m = .ok (l, diagnostics)) :
    m.Reports diagnostics := by
  obtain ⟨t, ht, _, rfl⟩ := of_ofModel h
  obtain rfl := (Timeline.build_eq_ok_iff.mp ht).1
  exact reports_reported s m

end Drafting.Sequence

namespace Drafting.Diagram

open Drafting.Sequence
open Diagnostic (subjects)

/-- **The faults of a sequence diagram are reported exactly.**  A drawing of it has one diagnostic
for each fault, and it has none if the diagram is well formed and only then. -/
theorem sequence_faults_are_reported {α : Type} [Scalar α] {s : Setting α}
    {title caption : Option String} {m : Sequence.Model} {drawing : Drawing α}
    (h : layout s ⟨title, caption, .sequence m⟩ = .ok drawing) :
    m.Reports drawing.diagnostics ∧ (drawing.diagnostics = [] ↔ m.WellFormed) := by
  obtain ⟨_, l, hl, _⟩ := of_layout_sequence h
  have hreports := Layout.reports_ofModel hl
  exact ⟨hreports, hreports.eq_nil_iff⟩

/-- A diagram with one fault of each kind. -/
theorem faults_of_a_muddled_diagram :
    let s : Setting Rat := ⟨.standard, fun _ _ => ⟨10, 5⟩⟩
    let m : Sequence.Model :=
      { participants := [{ id := "A" }, { id := "A" }, { id := "C", lifetime := ⟨some 9, none⟩ }]
        events := [.deactivate "A", .activate "A", .message { source := "A", target := some "B" },
          .blockSection none, .blockEnd, .blockStart { kind := "opt" }] }
    ∃ drawing, layout s ⟨none, none, .sequence m⟩ = .ok drawing ∧
      (subjects .duplicateId drawing.diagnostics).length = 1 ∧
      subjects .invalidLifetime drawing.diagnostics = [some "C"] ∧
      subjects .participantNotFound drawing.diagnostics = [some "B"] ∧
      subjects .activationUnderflow drawing.diagnostics = [some "A"] ∧
      subjects .unclosedActivation drawing.diagnostics = [some "A"] ∧
      (subjects .unbalancedBlock drawing.diagnostics).length = 3 ∧ ¬ m.WellFormed := by
  intro s m
  have hvalid : s.config.validate = .ok () := by cbv
  have hlengths : s.MeasuresLengths := fun _ _ =>
    (by decide : (0 : Rat) ≤ 10 ∧ (0 : Rat) ≤ 5)
  obtain ⟨drawing, hlayout⟩ := exists_layout_sequence hvalid hlengths none none (m := m)
    (by decide) (by decide)
  obtain ⟨hreports, hnone⟩ := sequence_faults_are_reported hlayout
  have hduplicates := hreports.duplicates.trans (by decide : _ = 1)
  refine ⟨drawing, hlayout, hduplicates, List.perm_singleton.mp (hreports.lifetimes.trans ?_),
    hreports.references.trans ?_, List.perm_singleton.mp (hreports.underflows.trans ?_),
    List.perm_singleton.mp (hreports.unclosed.trans ?_), hreports.blocks.trans ?_, fun hm => ?_⟩
  · decide
  · decide
  · decide
  · decide
  · decide
  · rw [hnone.mpr hm] at hduplicates
    exact absurd hduplicates (by decide)

end Drafting.Diagram
