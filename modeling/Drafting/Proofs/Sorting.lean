import Mathlib

/-!
Sorting by a number.

The sort is stable, so entries with the same number keep their order, and a sorted list is known
from the entries of each number.

* `pairwise_mergeSort_key`, `filter_mergeSort`: the sorted list, and its entries with one number.
* `filter_lt_of_pairwise`: a sorted list falls into pieces, one for each number.
* `eq_of_filter_eq`: sorted lists with the same pieces are the same.
* `mergeSort_append_of_le`: what has no smaller numbers is sorted behind the rest.
-/

namespace Drafting

variable {β : Type} (key : β → Nat)

lemma pairwise_mergeSort_key (xs : List β) :
    (xs.mergeSort fun a b => decide (key a ≤ key b)).Pairwise fun a b => key a ≤ key b := by
  have hsorted : (xs.mergeSort fun a b => decide (key a ≤ key b)).Pairwise fun a b =>
      decide (key a ≤ key b) :=
    List.pairwise_mergeSort (fun a b c => by simpa using Nat.le_trans)
      (fun a b => by simpa using Nat.le_total _ _) xs
  simpa using hsorted

/-- Entries with the same number keep their order. -/
lemma filter_mergeSort (xs : List β) (k : Nat) :
    ((xs.mergeSort fun a b => decide (key a ≤ key b)).filter fun a => key a = k) =
      xs.filter fun a => key a = k := by
  set sorted := xs.mergeSort fun a b => decide (key a ≤ key b)
  -- entries with one number are sorted as they are, and a sorted part of a list stays a part of it
  have hequal : (xs.filter fun a => key a = k).Pairwise fun a b => decide (key a ≤ key b) := by
    refine List.pairwise_of_forall_mem_list fun a ha b hb => ?_
    simp only [List.mem_filter, decide_eq_true_eq] at ha hb
    simp [ha.2, hb.2]
  have hsub : (xs.filter fun a => key a = k).Sublist sorted :=
    List.sublist_mergeSort (fun a b c => by simpa using Nat.le_trans)
      (fun a b => by simpa using Nat.le_total _ _) hequal List.filter_sublist
  have hkeep := hsub.filter fun a => decide (key a = k)
  rw [List.filter_filter] at hkeep
  simp only [Bool.and_self] at hkeep
  exact (hkeep.eq_of_length ((List.mergeSort_perm xs _).filter _).length_eq.symm).symm

/-- In a sorted list the entries below a number come before those with the number. -/
lemma filter_lt_succ {xs : List β} (h : xs.Pairwise fun a b => key a ≤ key b) (k : Nat) :
    (xs.filter fun a => key a < k + 1) =
      (xs.filter fun a => key a < k) ++ xs.filter fun a => key a = k := by
  induction xs with
  | nil => rfl
  | cons x xs ih =>
      obtain ⟨hx, hxs⟩ := List.pairwise_cons.mp h
      have hrest := ih hxs
      rcases Nat.lt_trichotomy (key x) k with hlt | heq | hgt
      · rw [List.filter_cons_of_pos (by simpa using hlt.le),
          List.filter_cons_of_pos (by simpa using hlt),
          List.filter_cons_of_neg (by simpa using hlt.ne), hrest, List.cons_append]
      · have hnone : (xs.filter fun a => key a < k) = [] :=
          List.filter_eq_nil_iff.mpr fun a ha => by simpa using heq ▸ hx a ha
        rw [hnone, List.nil_append] at hrest
        rw [List.filter_cons_of_pos (by simpa using heq.le),
          List.filter_cons_of_neg (by simpa using heq.ge), hnone, List.nil_append,
          List.filter_cons_of_pos (by simpa using heq), hrest]
      · rw [List.filter_cons_of_neg (by simpa using hgt),
          List.filter_cons_of_neg (by simpa using hgt.le),
          List.filter_cons_of_neg (by simpa using hgt.ne'), hrest]

/-- A sorted list is made of pieces, one for each number. -/
lemma filter_lt_of_pairwise {xs : List β} (h : xs.Pairwise fun a b => key a ≤ key b) (n : Nat) :
    (xs.filter fun a => key a < n) =
      (List.range n).flatMap fun k => xs.filter fun a => key a = k := by
  induction n with
  | zero => simp
  | succ n ih =>
      rw [filter_lt_succ key h, ih, List.range_succ, List.flatMap_append, List.flatMap_singleton]

/-- In a sorted list the entry with the smaller number comes first. -/
lemma lt_of_getElem?_of_lt {xs : List β} (h : xs.Pairwise fun a b => key a ≤ key b) {i j : Nat}
    {a b : β} (hi : xs[i]? = some a) (hj : xs[j]? = some b) (hlt : key a < key b) : i < j := by
  obtain ⟨hilt, rfl⟩ := List.getElem?_eq_some_iff.mp hi
  obtain ⟨hjlt, rfl⟩ := List.getElem?_eq_some_iff.mp hj
  by_contra hle
  rcases Nat.lt_or_eq_of_le (Nat.not_lt.mp hle) with hji | rfl
  · have := List.pairwise_iff_getElem.mp h j i hjlt hilt hji
    omega
  · exact Nat.lt_irrefl _ hlt

/-- Sorted lists that have the same entries with each number, in the same order, are the same. -/
lemma eq_of_filter_eq {xs ys : List β} (hxs : xs.Pairwise fun a b => key a ≤ key b)
    (hys : ys.Pairwise fun a b => key a ≤ key b)
    (h : ∀ k, (xs.filter fun a => key a = k) = ys.filter fun a => key a = k) : xs = ys := by
  obtain ⟨n, hn⟩ : ∃ n, ∀ a ∈ xs ++ ys, key a < n :=
    ⟨((xs ++ ys).map key).sum + 1, fun a ha =>
      Nat.lt_succ_of_le (List.le_sum_of_mem (List.mem_map_of_mem ha))⟩
  have hx : ∀ a ∈ xs, decide (key a < n) := fun a ha => by simpa using hn a (by simp [ha])
  have hy : ∀ a ∈ ys, decide (key a < n) := fun a ha => by simpa using hn a (by simp [ha])
  calc xs = (List.range n).flatMap fun k => xs.filter fun a => key a = k := by
        rw [← filter_lt_of_pairwise key hxs, List.filter_eq_self.mpr hx]
    _ = (List.range n).flatMap fun k => ys.filter fun a => key a = k := by simp only [h]
    _ = ys := by rw [← filter_lt_of_pairwise key hys, List.filter_eq_self.mpr hy]

/-- **What has no smaller numbers is sorted behind the rest.** -/
lemma mergeSort_append_of_le {xs ys : List β} (h : ∀ a ∈ xs, ∀ b ∈ ys, key a ≤ key b) :
    ((xs ++ ys).mergeSort fun a b => decide (key a ≤ key b)) =
      (xs.mergeSort fun a b => decide (key a ≤ key b)) ++
        ys.mergeSort fun a b => decide (key a ≤ key b) := by
  refine eq_of_filter_eq key (pairwise_mergeSort_key key _) (List.pairwise_append.mpr
    ⟨pairwise_mergeSort_key key _, pairwise_mergeSort_key key _, fun a ha b hb => ?_⟩) fun k => ?_
  · exact h a (List.mem_mergeSort.mp ha) b (List.mem_mergeSort.mp hb)
  · rw [List.filter_append, filter_mergeSort, filter_mergeSort, filter_mergeSort,
      List.filter_append]

end Drafting
