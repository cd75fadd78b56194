import Mathlib
import Drafting.Proofs.Arrays
import Drafting.Proofs.Config
import Drafting.Sequence.Assemble

/-!
The columns of a sequence diagram.

Each lifeline is set a spacing beyond the reach of the column before it, whatever is rounded on the
way.  Whether the room of the two columns is then free of overlaps is a matter of the arithmetic.

* `Row.Beyond`: an element lies a spacing beyond the reach of the one before it.
* `Row.isChain_distribute`: so do all elements in a row.
* `firstOverlap_eq_none_iff`: the check of the columns passes when no two neighbours overlap.
* `Columns.isChain_ofTimeline`: the lifelines lie beyond each other.
-/

namespace Drafting

variable {α : Type} [Scalar α] [Lengths α]

/-! ### Elements in a row -/

omit [Lengths α] in
/-- A reach given by lengths. -/
def Extent.IsReach (e : Extent α) : Prop := 0 ≤ e.before ∧ 0 ≤ e.after

lemma Extent.IsReach.cover {e : Extent α} (h : e.IsReach) (f : Extent α) : (e.cover f).IsReach :=
  ⟨Lengths.max_nonneg _ h.1, Lengths.max_nonneg _ h.2⟩

namespace Row

omit [Lengths α] in
/-- The second element lies a spacing beyond the reach of the first. -/
def Beyond (spacing : α) (x y : Extent α × α) : Prop :=
  x.2 + x.1.after + spacing + y.1.before ≤ y.2

lemma le_push {position : α} (h : 0 ≤ position) (distances : List (MinDistance α))
    (placed : Array α) (i : Nat) : position ≤ push distances placed i position := by
  rw [push]
  generalize distances.filter (fun d => d.right == i && decide (d.left < d.right)) = relevant
  induction relevant generalizing position with
  | nil => exact Lengths.le_refl h
  | cons d relevant ih =>
      exact Lengths.le_trans (Lengths.le_max_left _ h) (ih (Lengths.max_nonneg _ h))

/-- What is placed after a list of elements, the last of which is given with its anchor. -/
lemma place_spec {spacing : α} (hspacing : 0 ≤ spacing) (distances : List (MinDistance α))
    {extents : List (Extent α)} (hextents : ∀ e ∈ extents, e.IsReach) (placed : Array α)
    (previous : Option (Extent α))
    (hprevious : ∀ e ∈ previous, e.IsReach ∧ 0 ≤ placed.back?.getD 0) :
    ∃ new : List α, (place spacing distances placed previous extents).toList =
        placed.toList ++ new ∧
      new.length = extents.length ∧ (∀ x ∈ new, 0 ≤ x) ∧
      ((previous.map fun e => (e, placed.back?.getD 0)).toList ++ extents.zip new).IsChain
        (Beyond spacing) := by
  induction extents generalizing placed previous with
  | nil => exact ⟨[], by simp [place], rfl, by simp, by cases previous <;> simp⟩
  | cons extent extents ih =>
      obtain ⟨hextent, hextents⟩ := List.forall_mem_cons.mp hextents
      set start := least spacing extent (previous.map fun e => (placed.back?.getD 0, e)) with hstart
      have hnonneg : 0 ≤ start := by
        cases previous with
        | none => exact hextent.1
        | some e =>
            obtain ⟨he, hback⟩ := hprevious e rfl
            exact Lengths.add_nonneg
              (Lengths.add_nonneg (Lengths.add_nonneg hback he.2) hspacing) hextent.1
      set x := push distances placed placed.size start with hx
      have hle : start ≤ x := le_push hnonneg distances placed placed.size
      have hback : (placed.push x).back?.getD 0 = x := by simp
      obtain ⟨new, hplace, hlength, hall, hchain⟩ := ih hextents (placed.push x) (some extent)
        fun e he => by
          obtain rfl := Option.mem_some_iff.mp he
          rw [hback]
          exact ⟨hextent, Lengths.le_trans hnonneg hle⟩
      rw [hback] at hchain
      refine ⟨x :: new, ?_, by simp [hlength], ?_, ?_⟩
      · rw [place, ← hstart, ← hx, hplace]
        simp
      · rw [List.forall_mem_cons]
        exact ⟨Lengths.le_trans hnonneg hle, hall⟩
      · cases previous with
        | none => exact hchain
        | some e => exact List.isChain_cons_cons.mpr ⟨hle, hchain⟩

/-- **The elements in a row lie beyond each other.** -/
lemma isChain_distribute {spacing : α} (hspacing : 0 ≤ spacing) (distances : List (MinDistance α))
    {extents : List (Extent α)} (hextents : ∀ e ∈ extents, e.IsReach) :
    (distribute extents spacing distances).length = extents.length ∧
      (∀ x ∈ distribute extents spacing distances, 0 ≤ x) ∧
      (extents.zip (distribute extents spacing distances)).IsChain (Beyond spacing) := by
  obtain ⟨new, hplace, hlength, hall, hchain⟩ :=
    place_spec hspacing distances hextents #[] none (by simp)
  rw [distribute, hplace]
  exact ⟨hlength, hall, hchain⟩

end Row

namespace Sequence

/-! ### The check -/

omit [Lengths α] in
/-- The check of the columns passes when no two neighbours overlap. -/
lemma firstOverlap_eq_none_iff (participants : List (ParticipantGeometry α)) :
    firstOverlap participants = none ↔
      (participants.map (·.range)).IsChain fun r q => r.overlaps q = false := by
  fun_induction firstOverlap participants with
  | case1 p q rest hoverlap => simp [hoverlap]
  | case2 p q rest hoverlap ih => simpa [hoverlap] using ih
  | case3 participants hshort =>
      rcases participants with _ | ⟨p, _ | ⟨q, rest⟩⟩
      · simp
      · simp
      · exact absurd rfl (hshort p q rest)

/-! ### The lifelines -/

/-- The header of a participant has lengths for its sides. -/
lemma Roster.header_nonneg {s : Setting α} (hs : s.config.sequence.Sensible)
    (ht : s.MeasuresLengths) {m : Model} {c : Column α} (hc : c ∈ Roster.ofModel s m) :
    0 ≤ c.header.width ∧ 0 ≤ c.header.height := by
  obtain ⟨p, -, rfl⟩ := List.mem_map.mp hc
  obtain ⟨hwidth, hheight⟩ := ht.measured p.displayText s.config.styles.participant none
  exact ⟨Lengths.add_nonneg (Lengths.add_nonneg hwidth hs.participantPadding) hs.participantPadding,
    Lengths.add_nonneg (Lengths.add_nonneg hheight hs.participantPadding) hs.participantPadding⟩

namespace Columns

variable {s : Setting α}

omit [Lengths α] in
lemma size_extentsOf (roster : Roster α) (activations : Array (Activation α))
    (slots : List (Slot α)) :
    (extentsOf s roster (reachOf s roster.length activations) slots).size = roster.length := by
  have hreach : (reachOf s roster.length activations).size = roster.length := by
    rw [reachOf, ← Array.foldl_toList, size_foldl fun _ _ => Array.size_modify,
      Array.size_replicate]
  rw [extentsOf, size_foldl fun _ _ => Array.size_modify]
  simp [hreach]

/-- Columns reserve room that is given by lengths. -/
lemma isReach_extentsOf (hs : s.config.sequence.Sensible) (ht : s.MeasuresLengths) (m : Model)
    (reach : Array α) (slots : List (Slot α)) :
    ∀ e ∈ (extentsOf s (Roster.ofModel s m) reach slots).toList, e.IsReach := by
  have hfold : ∀ (entries : List (Nat × Extent α)) (extents : Array (Extent α)),
      (∀ e ∈ extents, e.IsReach) → ∀ e ∈ entries.foldl
        (fun extents entry => extents.modify entry.1 (·.cover entry.2)) extents, e.IsReach := by
    intro entries
    induction entries with
    | nil => exact fun extents h => h
    | cons entry entries ih =>
        intro extents h
        refine ih _ fun e he => ?_
        rcases mem_modify he with he | ⟨f, hf, rfl⟩
        · exact h e he
        · exact (h f hf).cover _
  intro e he
  rw [extentsOf, Array.mem_toList_iff] at he
  refine hfold _ _ (fun e he => ?_) e he
  rw [List.mem_toArray, List.mem_map] at he
  obtain ⟨⟨c, r⟩, hmem, rfl⟩ := he
  have hwidth := Lengths.half_nonneg (Roster.header_nonneg hs ht (List.of_mem_zip hmem).1).1
  change (barExtent s c.header r).IsReach
  rw [barExtent]
  split
  · exact Extent.IsReach.cover ⟨hwidth, hwidth⟩ _
  · exact ⟨hwidth, hwidth⟩

/-- **The lifelines lie beyond each other.** -/
lemma isChain_ofTimeline (hs : s.config.sequence.Sensible) (ht : s.MeasuresLengths) (m : Model)
    (t : Timeline α) :
    let c := ofTimeline s (Roster.ofModel s m) t
    c.centers.size = (Roster.ofModel s m).length ∧ c.extents.size = (Roster.ofModel s m).length ∧
      (∀ x ∈ c.centers, 0 ≤ x) ∧ (∀ e ∈ c.extents, e.IsReach) ∧
      (c.extents.toList.zip c.centers.toList).IsChain
        (Row.Beyond s.config.sequence.participantSpacing) := by
  intro c
  have hextents : c.extents.size = (Roster.ofModel s m).length := size_extentsOf _ _ _
  have hreach : ∀ e ∈ c.extents.toList, e.IsReach := isReach_extentsOf hs ht m _ _
  obtain ⟨hlength, hall, hchain⟩ := Row.isChain_distribute
    (Lengths.le_of_lt hs.participantSpacing.2) (t.slots.filterMap (slotDistance? s)) hreach
  have hcenters : c.centers.toList = Row.distribute c.extents.toList
      s.config.sequence.participantSpacing (t.slots.filterMap (slotDistance? s)) := by
    simp only [c, ofTimeline]
  refine ⟨?_, hextents, ?_, fun e he => hreach e (Array.mem_toList_iff.mpr he), hcenters ▸ hchain⟩
  · rw [← Array.length_toList, hcenters, hlength, Array.length_toList, hextents]
  · intro x hx
    exact hall x (hcenters ▸ Array.mem_toList_iff.mpr hx)

omit [Lengths α] in
/-- The room of a column around its lifeline. -/
lemma map_range_eq {c : Columns α} (h : c.extents.size = c.centers.size) :
    (List.range c.centers.size).map c.range = (c.extents.toList.zip c.centers.toList).map
      fun x => ⟨x.2 - x.1.before, x.2 + x.1.after⟩ := by
  refine List.ext_getElem (by simp [h]) fun i hi hi' => ?_
  simp only [List.length_map, List.length_range] at hi
  simp [range, center, hi, h]

end Columns

/-- **The check of the columns passes where the arithmetic keeps neighbours apart.** -/
lemma Layout.assemble_eq_ok {s : Setting α} (hs : s.config.sequence.Sensible)
    (ht : s.MeasuresLengths) (m : Model) (t : Timeline α)
    (hapart : ∀ a b, ∀ x ∈ (Columns.ofTimeline s (Roster.ofModel s m) t).centers, 0 ≤ a → 0 ≤ b →
      a + s.config.sequence.participantSpacing + b ≤ x → ¬ x - b < a) :
    ∃ l, Layout.assemble s (Roster.ofModel s m) t
      (Columns.ofTimeline s (Roster.ofModel s m) t) = .ok l := by
  obtain ⟨hcenters, hextents, hnonneg, hreach, hchain⟩ := Columns.isChain_ofTimeline hs ht m t
  set c := Columns.ofTimeline s (Roster.ofModel s m) t with hc
  have hnone : firstOverlap ((Roster.ofModel s m).mapIdx fun column x =>
      Assembly.participant ⟨s, Roster.ofModel s m, t, c⟩ t.delays column x) = none := by
    have hranges : ((Roster.ofModel s m).mapIdx fun column x =>
        Assembly.participant ⟨s, Roster.ofModel s m, t, c⟩ t.delays column x).map (·.range) =
        (List.range c.centers.size).map c.range := by
      refine List.ext_getElem (by simp [hcenters]) fun i hi hi' => ?_
      simp [Assembly.participant]
    rw [firstOverlap_eq_none_iff, hranges, Columns.map_range_eq (hextents.trans hcenters.symm),
      List.isChain_map]
    refine hchain.imp_of_mem_imp ?_
    rintro ⟨e, x⟩ ⟨e', x'⟩ hmem hmem' hbeyond
    obtain ⟨he, hx⟩ := List.of_mem_zip hmem
    obtain ⟨he', hx'⟩ := List.of_mem_zip hmem'
    have hend := Lengths.add_nonneg (hnonneg x (Array.mem_toList_iff.mp hx))
      (hreach e (Array.mem_toList_iff.mp he)).2
    have hfree := hapart _ _ x' (Array.mem_toList_iff.mp hx') hend
      (hreach e' (Array.mem_toList_iff.mp he')).1 hbeyond
    simp only [ColumnRange.overlaps, hfree, decide_false, Bool.and_false]
  rw [Layout.assemble]
  simp only [hnone]
  exact ⟨_, rfl⟩

end Sequence

end Drafting
