import Mathlib
import Drafting.Proofs.Sequence.Columns

/-!
The least places of elements in a row.

Each element is placed as far to the left as its left neighbour and its demanded distances to
elements on the left permit.  No other placement that keeps all distances has any element further to
the left, for in such a placement each element is pushed at least as far by those before it.

* `Row.Keeps`: anchors that keep all distances.
* `Row.Demands`, `Row.isLeast_place`: each anchor is the least one that those before it permit.
* `Row.Keeps.before_of_lt`: elements that keep their distances to their neighbours are apart from
  all others.
* `Row.keeps_distribute`, `Row.getD_distribute_le`, `Row.Keeps.ranges_apart`: what holds
  of the anchors in a row.
* `Row.distribute_is_least`: the anchors in a row are the least ones that keep all distances.
-/

namespace Drafting

namespace Row

/-- Anchors, given by the numbers of their elements, that keep all distances. -/
structure Keeps (extents : List (Extent Rat)) (spacing : Rat) (distances : List (MinDistance Rat))
    (q : Nat → Rat) : Prop where
  /-- The first element does not reach beyond the left end. -/
  first : ∀ e, extents[0]? = some e → e.before ≤ q 0
  /-- Neighbours are a spacing apart. -/
  apart : ∀ i e f, extents[i]? = some e → extents[i + 1]? = some f →
    q i + e.after + spacing ≤ q (i + 1) - f.before
  /-- Demanded distances are kept. -/
  demanded : ∀ d ∈ distances, d.left < d.right → d.right < extents.length →
    d.distance ≤ q d.right - q d.left

section Least

variable {extents : List (Extent Rat)} {spacing : Rat} {distances : List (MinDistance Rat)}
  {p q : Nat → Rat} {i : Nat} {x : Rat}

/-- What the elements before an element demand of its anchor. -/
structure Demands (extents : List (Extent Rat)) (spacing : Rat) (distances : List (MinDistance Rat))
    (q : Nat → Rat) (i : Nat) (x : Rat) : Prop where
  first : ∀ e, i = 0 → extents[i]? = some e → e.before ≤ x
  apart : ∀ j e f, i = j + 1 → extents[j]? = some e → extents[i]? = some f →
    q j + e.after + spacing + f.before ≤ x
  demanded : ∀ d ∈ distances, d.right = i → d.left < d.right → q d.left + d.distance ≤ x

/-- Anchors keep all distances if each of them is one that those before it permit. -/
lemma keeps_of_demands (h : ∀ i < extents.length, Demands extents spacing distances q i (q i)) :
    Keeps extents spacing distances q where
  first e he := (h 0 (List.getElem?_eq_some_iff.mp he).1).first e rfl he
  apart i e f he hf := by
    have hle := (h (i + 1) (List.getElem?_eq_some_iff.mp hf).1).apart i e f rfl he hf
    linarith
  demanded d hd hlt hright := by
    have hle := (h d.right hright).demanded d hd rfl hlt
    linarith

lemma Keeps.demands (h : Keeps extents spacing distances q) (hi : i < extents.length) :
    Demands extents spacing distances q i (q i) where
  first e hzero he := by
    subst hzero
    exact h.first e he
  apart j e f hj he hf := by
    subst hj
    have hle := h.apart j e f he hf
    linarith
  demanded d hd hright hlt := by
    subst hright
    have hle := h.demanded d hd hlt hi
    linarith

/-- The further to the left those before it are, the less they demand. -/
lemma Demands.mono (h : Demands extents spacing distances q i x) (hle : ∀ j < i, p j ≤ q j) :
    Demands extents spacing distances p i x where
  first := h.first
  apart j e f hj he hf := by
    have hold := h.apart j e f hj he hf
    have hleft := hle j (by omega)
    linarith
  demanded d hd hright hlt := by
    have hold := h.demanded d hd hright hlt
    have hleft := hle d.left (by omega)
    linarith

/-- Demanded distances push an element no further than they have to. -/
lemma isLeast_push (distances : List (MinDistance Rat)) (placed : Array Rat) (i : Nat)
    (position : Rat) :
    IsLeast {x | position ≤ x ∧ ∀ d ∈ distances, d.right = i → d.left < d.right →
      placed.getD d.left 0 + d.distance ≤ x} (push distances placed i position) := by
  have hrelevant : ∀ x, (∀ d ∈ distances, d.right = i → d.left < d.right →
      placed.getD d.left 0 + d.distance ≤ x) ↔
      ∀ d ∈ distances.filter fun d => d.right == i && decide (d.left < d.right),
        placed.getD d.left 0 + d.distance ≤ x := by
    intro x
    simp only [List.mem_filter, Bool.and_eq_true, beq_iff_eq, decide_eq_true_eq, and_imp]
  simp only [hrelevant]
  rw [push]
  generalize distances.filter (fun d => d.right == i && decide (d.left < d.right)) = relevant
  induction relevant generalizing position with
  | nil => exact ⟨⟨le_refl _, by simp⟩, fun x hx => hx.1⟩
  | cons d relevant ih =>
      obtain ⟨⟨hstart, hkept⟩, hleast⟩ := ih (max position (placed.getD d.left 0 + d.distance))
      refine ⟨⟨(le_max_left _ _).trans hstart, ?_⟩, fun x hx => ?_⟩
      · exact List.forall_mem_cons.mpr ⟨(le_max_right _ _).trans hstart, hkept⟩
      · obtain ⟨hx, hrest⟩ := hx
        rw [List.forall_mem_cons] at hrest
        exact hleast ⟨max_le hx hrest.1, hrest.2⟩

/-- What is demanded of the element after those that are placed. -/
lemma demands_iff {done rest : List (Extent Rat)} {extent : Extent Rat} {placed : Array Rat}
    (hsize : placed.size = done.length) (hq : ∀ i < done.length, q i = placed.getD i 0) :
    Demands (done ++ extent :: rest) spacing distances q done.length x ↔
      least spacing extent (done.getLast?.map fun e => (placed.back?.getD 0, e)) ≤ x ∧
        ∀ d ∈ distances, d.right = placed.size → d.left < d.right →
          placed.getD d.left 0 + d.distance ≤ x := by
  have hhere : (done ++ extent :: rest)[done.length]? = some extent := by simp
  have hdemanded : (∀ d ∈ distances, d.right = done.length → d.left < d.right →
      q d.left + d.distance ≤ x) ↔ ∀ d ∈ distances, d.right = placed.size → d.left < d.right →
        placed.getD d.left 0 + d.distance ≤ x := by
    rw [hsize]
    refine forall₂_congr fun d _ => forall₂_congr fun hright hlt => ?_
    rw [hq d.left (hright ▸ hlt)]
  rw [← hdemanded]
  rcases List.eq_nil_or_concat' done with rfl | ⟨front, last, rfl⟩
  · refine ⟨fun h => ⟨h.first extent rfl hhere, h.demanded⟩, fun h => ⟨?_, ?_, h.2⟩⟩
    · intro e _ he
      obtain rfl := Option.some.inj (hhere.symm.trans he)
      exact h.1
    · intro j e f hj
      simp at hj
  · have hlast : (front ++ [last] ++ extent :: rest)[front.length]? = some last := by simp
    have hanchor : q front.length = placed.back?.getD 0 := by
      rw [hq front.length (by simp), Array.getD_eq_getD_getElem?, Array.back?_eq_getElem?, hsize]
      simp
    rw [List.getLast?_concat, Option.map_some, least, ← hanchor]
    refine ⟨fun h => ⟨h.apart front.length last extent (by simp) hlast hhere, h.demanded⟩,
      fun h => ⟨?_, ?_, h.2⟩⟩
    · intro e hzero
      simp at hzero
    · intro j e f hj he hf
      obtain rfl : j = front.length := by simpa using hj.symm
      obtain rfl := Option.some.inj (hlast.symm.trans he)
      obtain rfl := Option.some.inj (hhere.symm.trans hf)
      exact h.1

/-- **Each element is placed at the least anchor that those before it permit.**  `done` are the
elements that are placed already. -/
lemma isLeast_place (spacing : Rat) (distances : List (MinDistance Rat))
    (rest done : List (Extent Rat)) {placed row : Array Rat} (hsize : placed.size = done.length)
    (hrow : place spacing distances placed done.getLast? rest = row) :
    row.size = (done ++ rest).length ∧ (∀ i < done.length, row.getD i 0 = placed.getD i 0) ∧
      ∀ i, done.length ≤ i → i < (done ++ rest).length →
        IsLeast {x | Demands (done ++ rest) spacing distances (row.getD · 0) i x}
          (row.getD i 0) := by
  induction rest generalizing done placed with
  | nil =>
      rw [place] at hrow
      subst hrow
      rw [List.append_nil]
      exact ⟨hsize, fun i _ => rfl, fun i hle hlt => by omega⟩
  | cons extent rest ih =>
      set start := least spacing extent (done.getLast?.map fun e => (placed.back?.getD 0, e))
        with hstart
      set x := push distances placed placed.size start with hx
      have hplace : place spacing distances (placed.push x) (done ++ [extent]).getLast? rest =
          row := by
        rw [← hrow, place, ← hstart, ← hx, List.getLast?_concat]
      obtain ⟨hlength, hkept, hleast⟩ := ih (done ++ [extent]) (by simp [hsize]) hplace
      rw [List.append_assoc, List.singleton_append] at hlength hleast
      rw [List.length_append, List.length_singleton] at hkept hleast
      have hbefore : ∀ i < done.length, row.getD i 0 = placed.getD i 0 := by
        intro i hi
        rw [hkept i (by omega)]
        simp [Array.getD_eq_getD_getElem?, Array.getElem?_push, hsize, hi.ne]
      have hhere : row.getD done.length 0 = x := by
        rw [hkept _ (Nat.lt_succ_self _)]
        simp [Array.getD_eq_getD_getElem?, ← hsize]
      refine ⟨hlength, hbefore, fun i hle hlt => ?_⟩
      rcases hle.lt_or_eq with hgt | rfl
      · exact hleast i hgt hlt
      · rw [hhere]
        simp only [demands_iff hsize hbefore]
        exact isLeast_push distances placed placed.size start

/-- **The anchors in a row keep all distances, and each is the least that
those before it permit.** -/
lemma isLeast_distribute (extents : List (Extent Rat)) (spacing : Rat)
    (distances : List (MinDistance Rat)) :
    (distribute extents spacing distances).length = extents.length ∧
      ∀ i < extents.length,
        IsLeast {x | Demands extents spacing distances
          ((distribute extents spacing distances).getD · 0) i x}
          ((distribute extents spacing distances).getD i 0) := by
  obtain ⟨hsize, -, hleast⟩ := isLeast_place spacing distances extents []
    (rfl : (#[] : Array Rat).size = _) rfl
  have hgetD : ∀ i, (distribute extents spacing distances).getD i 0 =
      (place spacing distances #[] none extents).getD i 0 := by
    intro i
    rw [distribute, List.getD_eq_getElem?_getD, Array.getElem?_toList, Array.getD_eq_getD_getElem?]
  simp only [hgetD]
  exact ⟨by rw [distribute, Array.length_toList]; exact hsize,
    fun i hi => hleast i (Nat.zero_le i) hi⟩

end Least

/-- **Elements that keep their distances to their neighbours are apart from all others.** -/
lemma Keeps.before_of_lt {extents : List (Extent Rat)} {spacing : Rat}
    {distances : List (MinDistance Rat)} {q : Nat → Rat} (h : Keeps extents spacing distances q)
    (hreach : ∀ e ∈ extents, e.IsReach) (hspacing : 0 ≤ spacing) {i j : Nat} {e f : Extent Rat}
    (hij : i < j) (he : extents[i]? = some e) (hf : extents[j]? = some f) :
    q i + e.after + spacing ≤ q j - f.before := by
  induction j, hij using Nat.le_induction generalizing f with
  | base => exact h.apart i e f he hf
  | succ j hj ih =>
      have hlt : j < extents.length := by
        have := (List.getElem?_eq_some_iff.mp hf).1
        omega
      have hbetween := List.getElem?_eq_getElem hlt
      obtain ⟨hbefore, hafter⟩ := hreach _ (List.mem_of_getElem? hbetween)
      calc q i + e.after + spacing
        _ ≤ q j - extents[j].before := ih hbetween
        _ ≤ q j + extents[j].after + spacing := by linarith
        _ ≤ q (j + 1) - f.before := h.apart j extents[j] f hbetween hf

section Distribute

variable {extents : List (Extent Rat)} {spacing : Rat} {distances : List (MinDistance Rat)}

lemma keeps_distribute (extents : List (Extent Rat)) (spacing : Rat)
    (distances : List (MinDistance Rat)) :
    Keeps extents spacing distances ((distribute extents spacing distances).getD · 0) :=
  keeps_of_demands fun i hi => ((isLeast_distribute extents spacing distances).2 i hi).1

/-- Nothing stands before the first element. -/
lemma getD_zero_distribute {e : Extent Rat} (he : extents[0]? = some e) :
    (distribute extents spacing distances).getD 0 0 = e.before := by
  have hleast := (isLeast_distribute extents spacing distances).2 0
    (List.getElem?_eq_some_iff.mp he).1
  refine le_antisymm (hleast.2 ⟨?_, ?_, ?_⟩)
    ((keeps_distribute extents spacing distances).first e he)
  · intro e' _ he'
    obtain rfl := Option.some.inj (he.symm.trans he')
    exact le_refl _
  · intro j _ _ hj
    omega
  · intro d _ hright hlt
    omega

/-- No anchor that keeps all distances is less.  By induction on the elements before it: what they
demand of the least anchors they demand of the others all the more. -/
lemma getD_distribute_le {q : Nat → Rat} (hq : Keeps extents spacing distances q) {i : Nat}
    (hi : i < extents.length) : (distribute extents spacing distances).getD i 0 ≤ q i := by
  induction i using Nat.strong_induction_on with
  | _ i ih =>
      exact ((isLeast_distribute extents spacing distances).2 i hi).2
        ((hq.demands hi).mono fun j hj => ih j hj (hj.trans hi))

/-- Columns that keep their distances have rooms that do not overlap. -/
lemma Keeps.ranges_apart {row : List Rat} (h : Keeps extents spacing distances (row.getD · 0))
    (hreach : ∀ e ∈ extents, e.IsReach) (hspacing : 0 ≤ spacing) {c : Sequence.Columns Rat}
    (hc : c.extents.toList = extents) (hrow : c.centers.toList = row) {i j : Nat}
    (hi : i < extents.length) (hj : j < extents.length) (hne : i ≠ j) :
    (c.range i).overlaps (c.range j) = false := by
  have hrange : ∀ i (hi : i < extents.length), c.range i =
      ⟨row.getD i 0 - extents[i].before, row.getD i 0 + extents[i].after⟩ := by
    intro i hi
    have hextent : c.extents[i]? = some extents[i] := by
      rw [← Array.getElem?_toList, hc, List.getElem?_eq_getElem hi]
    simp only [Sequence.Columns.range, Sequence.Columns.center,
      Array.getD_eq_getD_getElem?, hextent,
      Option.getD_some, ← hrow, List.getD_eq_getElem?_getD, Array.getElem?_toList]
  rw [hrange i hi, hrange j hj]
  simp only [Sequence.ColumnRange.overlaps, Bool.and_eq_false_iff, decide_eq_false_iff_not, not_lt]
  rcases Nat.lt_or_gt_of_ne hne with hij | hji
  · have hapart := h.before_of_lt hreach hspacing hij (List.getElem?_eq_getElem hi)
      (List.getElem?_eq_getElem hj)
    exact Or.inr (by linarith)
  · have hapart := h.before_of_lt hreach hspacing hji (List.getElem?_eq_getElem hj)
      (List.getElem?_eq_getElem hi)
    exact Or.inl (by linarith)

end Distribute

/-- **The anchors in a row are the least ones that keep all distances.**  The first element
begins at zero, all distances are kept, and every other placement that keeps them has every
element at least as far to the right.  If no reach is negative, the room of any two columns that
are placed so does not overlap. -/
theorem distribute_is_least (extents : List (Extent Rat)) (spacing : Rat)
    (distances : List (MinDistance Rat)) :
    let row := distribute extents spacing distances
    row.length = extents.length ∧
      (∀ e, extents[0]? = some e → row.getD 0 0 = e.before) ∧
      Keeps extents spacing distances (row.getD · 0) ∧
      (∀ q, Keeps extents spacing distances q → ∀ i < extents.length, row.getD i 0 ≤ q i) ∧
      ((∀ e ∈ extents, e.IsReach) → 0 ≤ spacing → ∀ c : Sequence.Columns Rat,
        c.extents.toList = extents → c.centers.toList = row →
          ∀ i j, i < extents.length → j < extents.length → i ≠ j →
            (c.range i).overlaps (c.range j) = false) := by
  have hkeeps := keeps_distribute extents spacing distances
  refine ⟨(isLeast_distribute extents spacing distances).1, fun e he => getD_zero_distribute he,
    hkeeps, fun q hq i hi => getD_distribute_le hq hi, ?_⟩
  intro hreach hspacing c hc hrow i j hi hj hne
  exact hkeeps.ranges_apart hreach hspacing hc hrow hi hj hne

/-- A text that spans three columns moves the last of them.  Another placement that keeps the
distances has it further to the right, and the room of the first column and of the last is apart. -/
theorem distribute_of_a_long_text :
    let extents : List (Extent Rat) := [⟨5, 5⟩, ⟨5, 15⟩, ⟨10, 5⟩]
    let distances : List (MinDistance Rat) := [⟨0, 2, 100⟩]
    let wider : Nat → Rat := fun i => 60 * i + 5
    let columns : Sequence.Columns Rat := ⟨#[5, 25, 105], extents.toArray, #[0, 0, 0]⟩
    distribute extents 10 distances = [5, 25, 105] ∧
      Keeps extents 10 distances wider ∧ (distribute extents 10 distances).getD 2 0 ≤ wider 2 ∧
      (columns.range 0).overlaps (columns.range 2) = false := by
  intro extents distances wider columns
  obtain ⟨-, -, -, hleast, hapart⟩ := distribute_is_least extents 10 distances
  have hrow : distribute extents 10 distances = [5, 25, 105] := by decide +kernel
  have hreach : ∀ e ∈ extents, e.IsReach := by
    simp only [extents, List.forall_mem_cons, Extent.IsReach]
    decide
  have hwider : Keeps extents 10 distances wider := by
    refine ⟨by simp [extents, wider], ?_, by norm_num [distances, extents, wider]⟩
    rintro (_ | _ | i) e f he hf
    · cases he
      cases hf
      norm_num [wider]
    · cases he
      cases hf
      norm_num [wider]
    · cases hf
  exact ⟨hrow, hwider, hleast wider hwider 2 (by decide), hapart hreach (by decide) columns rfl
    hrow.symm 0 2 (by decide) (by decide) (by decide)⟩

end Row

end Drafting
