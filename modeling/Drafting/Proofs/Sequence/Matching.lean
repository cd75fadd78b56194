import Mathlib
import Drafting.Proofs.Sequence.Activations

/-!
Activations match the starts and ends of their participants.

A start of a participant owns one activation.  An end belongs to the activation of the latest start
of the same participant that is still open, and if there is none, to an empty activation of its own.
Who else is active, and what else happens, makes no difference.

* `Timeline.Matches`: activations follow the events of a diagram.
* `Timeline.matches_ofModel`: so it is in every timeline.
* `Diagram.activations_match_events`: so it is in every drawing.
-/

namespace Drafting.Sequence

open Mark (stack Pairs openStarts)

variable {α : Type}

/-- The activation that a drawn event refers to. -/
def EventShape.activation? : EventShape α → Option Nat
  | .activate k => k
  | .deactivate k => k
  | _ => none

namespace Timeline

/-- The activation that an event refers to. -/
def reference (t : Timeline α) (i : Nat) : Option Nat := t.slots[i]?.bind (·.kind.activation?)

/-- Activations follow the events of a diagram. -/
structure Matches (t : Timeline α) (roster : Roster α) (m : Model) : Prop where
  /-- A start owns one activation.  It is as deep as others of the participant are open, and it is
  closed by the end that matches the start. -/
  starts : ∀ i id, m.events[i]? = some (.activate id) → id ∈ m.names →
    ∃ k a, t.reference i = some k ∧ t.activations[k]? = some a ∧
      roster.columnOf? id = some a.column ∧ a.startEvent = some i ∧
      a.depth = (openStarts (Event.activityMark id) m.events i).length ∧
      (∀ j, a.endEvent = some j ↔ Pairs (Event.activityMark id) m.events i j) ∧
      ∀ k' a', t.activations[k']? = some a' → a'.startEvent = some i → k' = k
  /-- An end owns the activation of the latest start that is open, or else an empty one. -/
  ends : ∀ j id, m.events[j]? = some (.deactivate id) → id ∈ m.names →
    ∃ k a, t.reference j = some k ∧ t.activations[k]? = some a ∧
      roster.columnOf? id = some a.column ∧ a.endEvent = some j ∧
      a.startEvent = (openStarts (Event.activityMark id) m.events j).getLast? ∧
      (a.startEvent = none → a.depth = 0 ∧ a.startY = a.endY) ∧
      ∀ k' a', t.activations[k']? = some a' → a'.endEvent = some j → k' = k
  /-- Other events, and those of somebody unknown, own none. -/
  others : ∀ i, (∀ id ∈ m.names, m.events[i]? ≠ some (.activate id) ∧
    m.events[i]? ≠ some (.deactivate id)) → t.reference i = none
  /-- There are no further activations: each is owned by a start or by an end that found none. -/
  all : ∀ k a, t.activations[k]? = some a →
    (∃ i, a.startEvent = some i ∧ t.reference i = some k ∧
      ∃ id ∈ m.names, m.events[i]? = some (.activate id)) ∨
    (a.startEvent = none ∧ ∃ j, a.endEvent = some j ∧ t.reference j = some k ∧
      ∃ id ∈ m.names, m.events[j]? = some (.deactivate id) ∧
        openStarts (Event.activityMark id) m.events j = [])

lemma kind_settle (activations : Array (Activation α)) (slot : Slot α) :
    (settle activations slot).kind = slot.kind := by
  rw [settle]
  split <;> rfl

variable [Scalar α] {s : Setting α} {m : Model}

omit [Scalar α] in
lemma reference_eq_none {roster : Roster α} {events : List Event} {i : Nat}
    (h : ∀ id, (roster.columnOf? id).isSome → events[i]? ≠ some (.activate id) ∧
      events[i]? ≠ some (.deactivate id)) : roster.reference events i = none := by
  rw [Roster.reference]
  split
  · next id hevent => exact if_neg fun hid => (h id hid).1 hevent
  · next id hevent => exact if_neg fun hid => (h id hid).2 hevent
  · rfl

/-- An event refers to the activation it adds, or to the one of the start it ends. -/
lemma reference_ofModel (s : Setting α) (m : Model) (i : Nat) :
    (ofModel s (Roster.ofModel s m) m).reference i =
      (Roster.ofModel s m).reference m.events i := by
  have hrun := (State.follows_run (s := s) (Roster.ofModel s m) m.events).2
  have hi := congrArg (·[i]?) hrun
  simp only [List.getElem?_map] at hi
  rw [reference, ofModel, List.getElem?_map]
  cases hslot : ((State.start (Roster.ofModel s m)).run s
    (Roster.ofModel s m) 0 m.events).2.1[i]? with
  | none =>
      rw [List.getElem?_eq_none_iff, State.length_slots_run] at hslot
      refine (reference_eq_none fun id _ => ?_).symm
      simp [List.getElem?_eq_none hslot]
  | some slot =>
      have hlt := (List.getElem?_eq_some_iff.mp hslot).1
      rw [State.length_slots_run] at hlt
      rw [hslot, List.getElem?_range hlt, Option.map_some, Option.map_some, Option.some.injEq] at hi
      rw [Option.map_some, Option.bind_some, kind_settle, hi]

/-- The activations of a timeline follow the events. -/
lemma follows_ofModel (s : Setting α) (m : Model) :
    ∃ p : Progress α, p.Follows (Roster.ofModel s m) m.events m.events.length ∧
      (ofModel s (Roster.ofModel s m) m).activations = p.activations := by
  exact ⟨_, (State.follows_run _ m.events).1.finished (nodup_roster s m),
    State.activations_finish _⟩

lemma isSome_columnOf? {id : Ident} :
    ((Roster.ofModel s m).columnOf? id).isSome ↔ id ∈ m.names := by
  rw [← not_iff_not, ← columnOf?_isNone (s := s), Option.isNone_iff_eq_none,
    Option.not_isSome_iff_eq_none]

/-- What an end refers to, depending on what is open before it. -/
lemma reference_deactivate {i : Nat} {id : Ident} (h : m.events[i]? = some (.deactivate id))
    (hid : id ∈ m.names) :
    (Roster.ofModel s m).reference m.events i = some ((Roster.ofModel s m).number m.events
      ((stack (Event.activityMark id) m.events i).head?.getD i)) := by
  rw [Roster.reference, h]
  exact if_pos (isSome_columnOf?.mpr hid)

lemma reference_activate {i : Nat} {id : Ident} (h : m.events[i]? = some (.activate id))
    (hid : id ∈ m.names) :
    (Roster.ofModel s m).reference m.events i =
      some ((Roster.ofModel s m).number m.events i) := by
  rw [Roster.reference, h]
  exact if_pos (isSome_columnOf?.mpr hid)

/-- **Activations follow the events of a diagram.** -/
lemma matches_ofModel (s : Setting α) (m : Model) :
    (ofModel s (Roster.ofModel s m) m).Matches (Roster.ofModel s m) m := by
  obtain ⟨p, hp, hactivations⟩ := follows_ofModel s m
  refine ⟨fun i id hevent hid => ?_, fun j id hevent hid => ?_, fun i hother => ?_,
    fun k a ha => ?_⟩
  · have hi := (List.getElem?_eq_some_iff.mp hevent).1
    obtain ⟨a, ha, hopened⟩ := hp.starts i id hi hevent (isSome_columnOf?.mpr hid)
    rw [reference_ofModel, reference_activate hevent hid, hactivations]
    refine ⟨_, a, rfl, ha, hopened.column, hopened.startEvent, ?_, fun j => ?_,
      fun _ _ hb => hp.eq_of_startEvent hb⟩
    · rw [Mark.length_openStarts, hopened.depth]
    · rw [hopened.endEvent, and_iff_right_iff_imp]
      exact fun h => (List.getElem?_eq_some_iff.mp (sets_eq_stop.mp h.stop)).1
  · have hj := (List.getElem?_eq_some_iff.mp hevent).1
    obtain ⟨a, ha, hcolumn, hend, hstart, hempty⟩ :=
      hp.exists_ended hj hevent (isSome_columnOf?.mpr hid)
    rw [reference_ofModel, reference_deactivate hevent hid, hactivations,
      Mark.getLast?_openStarts]
    exact ⟨_, a, rfl, ha, hcolumn, hend, hstart, hempty, fun _ _ hb => hp.eq_of_endEvent hevent hb⟩
  · rw [reference_ofModel]
    exact reference_eq_none fun id hid => hother id (isSome_columnOf?.mp hid)
  · rw [hactivations] at ha
    simp only [reference_ofModel]
    obtain ⟨i, -, rfl, id, hid, ⟨hevent, hopened⟩ | ⟨hevent, hstack, hnoted⟩⟩ := hp.cases_entry ha
    · have hname := isSome_columnOf?.mp hid
      exact Or.inl ⟨i, hopened.startEvent, reference_activate hevent hname, id, hname, hevent⟩
    · have hname := isSome_columnOf?.mp hid
      refine Or.inr ⟨hnoted.startEvent, i, hnoted.endEvent, ?_, id, hname, hevent, ?_⟩
      · rw [reference_deactivate hevent hname, hstack, List.head?_nil, Option.getD_none]
      · rw [Mark.openStarts_eq, hstack, List.reverse_nil]

end Timeline

/-! ### Drawings -/

namespace Layout

/-- The activation that a drawn event refers to. -/
def reference (l : Layout α) (i : Nat) : Option Nat := l.events[i]?.bind (·.shape.activation?)

/-- The participants of activations, their depths, and the events that open and close them. -/
def activity (l : Layout α) : List (Ident × Nat × Option Nat × Option Nat) :=
  l.activations.map fun g => (g.participant, g.depth, g.startEvent, g.endEvent)

variable [Scalar α]

/-- Events are drawn with the activations they refer to. -/
lemma of_assemble {s : Setting α} {roster : Roster α} {t : Timeline α} {c : Columns α}
    {l : Layout α} (h : assemble s roster t c = .ok l) :
    (∀ i, l.reference i = t.reference i) ∧ l.activity = t.activations.toList.map fun a =>
      ((roster[a.column]?.map (·.id)).getD "", a.depth, a.startEvent, a.endEvent) := by
  rw [assemble] at h
  dsimp only at h
  split at h
  · cases h
  · obtain rfl := Except.ok.inj h
    constructor
    · intro i
      rw [reference, Timeline.reference, List.getElem?_mapIdx]
      cases t.slots[i]? with
      | none => rfl
      | some slot =>
          simp only [Option.map_some, Option.bind_some, Assembly.event]
          cases slot.kind <;> rfl
    · simp only [activity, Assembly.bars, List.map_map]
      rfl

/-- Moving a diagram keeps what its events refer to. -/
lemma reference_translate (l : Layout α) (v : Point α) (i : Nat) :
    (l.translate v).reference i = l.reference i := by
  rw [reference, reference, translate, List.getElem?_map]
  cases l.events[i]? with
  | none => rfl
  | some event =>
      simp only [Option.map_some, Option.bind_some, EventGeometry.translate]
      cases event.shape <;> rfl

lemma activity_translate (l : Layout α) (v : Point α) : (l.translate v).activity = l.activity := by
  simp only [activity, translate, List.map_map]
  rfl

end Layout

end Drafting.Sequence

namespace Drafting.Diagram

open Drafting.Sequence
open Mark (Pairs rank)

/-- **Activations match the starts and ends of their participants.**  In the timeline of every
diagram they follow the events, the matching of a participant is that of its own starts and ends
alone, and a drawing shows these activations and refers to them. -/
theorem activations_match_events {α : Type} [Scalar α] (s : Setting α) (m : Sequence.Model) :
    let roster := Roster.ofModel s m
    let t := Timeline.ofModel s roster m
    t.Matches roster m ∧
      (∀ id i j, Pairs (Event.activityMark id) m.events i j ↔
        i < j ∧ m.events[i]? = some (.activate id) ∧ m.events[j]? = some (.deactivate id) ∧
          Pairs some (m.activity id) (rank (Event.activityMark id) m.events i)
            (rank (Event.activityMark id) m.events j)) ∧
      ∀ title caption drawing, layout s ⟨title, caption, .sequence m⟩ = .ok drawing →
        ∃ l, drawing.sequence? = some l ∧ (∀ i, l.reference i = t.reference i) ∧
          l.activity = t.activations.toList.map fun a =>
            ((roster[a.column]?.map (·.id)).getD "", a.depth, a.startEvent, a.endEvent) := by
  intro roster t
  refine ⟨Timeline.matches_ofModel s m, fun id i j => ?_, fun title caption drawing h => ?_⟩
  · rw [Mark.pairs_iff_rank, sets_eq_start, sets_eq_stop]
    rfl
  · obtain ⟨-, l, hl, hsequence, -⟩ := of_layout_sequence h
    obtain ⟨_, hbuild, hassemble, -⟩ := Layout.of_ofModel hl
    obtain rfl := (Timeline.build_eq_ok_iff.mp hbuild).1
    obtain ⟨hreference, hactivity⟩ := Layout.of_assemble hassemble
    refine ⟨_, hsequence, fun i => ?_, ?_⟩
    · rw [Layout.reference_translate, hreference]
    · rw [Layout.activity_translate, hactivity]

/-- The inner of two nested activations ends first, whatever another participant does in between. -/
theorem activations_of_interleaved_calls :
    let s : Setting Rat := ⟨.standard, fun _ _ => ⟨10, 5⟩⟩
    let m : Sequence.Model :=
      { participants := [{ id := "A" }, { id := "B" }]
        events := [.activate "A", .activate "B", .activate "A", .deactivate "B", .deactivate "A",
          .deactivate "B"] }
    ∃ drawing l k, layout s ⟨none, none, .sequence m⟩ = .ok drawing ∧
      drawing.sequence? = some l ∧ l.reference 2 = some k ∧ l.reference 4 = some k ∧
      l.activity[k]?.map (·.2) = some (1, some 2, some 4) := by
  intro s m
  have hvalid : s.config.validate = .ok () := by cbv
  have hlengths : s.MeasuresLengths := fun _ _ =>
    (by decide : (0 : Rat) ≤ 10 ∧ (0 : Rat) ≤ 5)
  obtain ⟨drawing, hlayout⟩ := exists_layout_sequence hvalid hlengths none none (m := m)
    (by decide) (by decide)
  obtain ⟨hmatches, -, hdrawn⟩ := activations_match_events s m
  obtain ⟨l, hl, hreference, hactivity⟩ := hdrawn none none drawing hlayout
  obtain ⟨k, a, hk, ha, -, hstart, hdepth, hends, hunique⟩ := hmatches.starts 2 "A" rfl (by decide)
  obtain ⟨k', a', hk', ha', -, -, hstart', -⟩ := hmatches.ends 4 "A" rfl (by decide)
  obtain rfl : k' = k := hunique k' a' ha' (hstart'.trans (by decide))
  refine ⟨drawing, l, k', hlayout, hl, (hreference 2).trans hk, (hreference 4).trans hk', ?_⟩
  rw [hactivity, List.getElem?_map, Array.getElem?_toList, ha, Option.map_some, Option.map_some,
    hstart, hdepth.trans (by decide : _ = 1), (hends 4).mpr (by decide)]

end Drafting.Diagram
