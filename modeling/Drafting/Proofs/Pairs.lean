import Mathlib

/-!
Sums over the pairs of entries of lists.

* `sumBetween`: over the pairs of an entry of one list and an entry of another.
* `sumPairs`, `countPairs`: over the pairs of an entry of a list and a later one.
* `sumPairs_flatMap`: pairs from groups are those within a group and those between groups.
* `sumPairs_perm`, `sumPairs_exchange`: what a rearrangement does to the sum.
* `flatMap_filter_perm`, `countPairs_groups`: entries that are sorted into groups, and their pairs.
-/

namespace Drafting

open scoped List

variable {β γ δ ε : Type}

/-- The sum over all pairs of an entry of one list and an entry of another. -/
def sumBetween (f : β → γ → Nat) (xs : List β) (ys : List γ) : Nat :=
  (xs.map fun x => (ys.map (f x)).sum).sum

/-- The sum over all pairs of an entry of a list and a later one. -/
def sumPairs (f : β → β → Nat) : List β → Nat
  | [] => 0
  | x :: xs => (xs.map (f x)).sum + sumPairs f xs

/-- The number of pairs of an entry of a list and a later one that are related. -/
def countPairs (R : β → β → Prop) [DecidableRel R] (xs : List β) : Nat :=
  sumPairs (fun x y => if R x y then 1 else 0) xs

/-- A count is a sum of ones. -/
lemma sum_map_ite (p : β → Prop) [DecidablePred p] (xs : List β) :
    (xs.map fun x => if p x then 1 else 0).sum = xs.countP p := by
  induction xs with
  | nil => rfl
  | cons x xs ih =>
      rw [List.map_cons, List.sum_cons, ih, List.countP_cons, Nat.add_comm]
      simp only [decide_eq_true_eq]

/-! ### Pairs from two lists -/

section Between

variable {f g : β → γ → Nat} {xs xs' : List β} {ys ys' : List γ}

lemma sumBetween_cons (x : β) :
    sumBetween f (x :: xs) ys = (ys.map (f x)).sum + sumBetween f xs ys := rfl

lemma sumBetween_cons_right (f : β → γ → Nat) (xs : List β) (y : γ) (ys : List γ) :
    sumBetween f xs (y :: ys) = (xs.map (f · y)).sum + sumBetween f xs ys := by
  simp only [sumBetween, List.map_cons, List.sum_cons, List.sum_map_add]

lemma sumBetween_append_right (f : β → γ → Nat) (xs : List β) (ys ys' : List γ) :
    sumBetween f xs (ys ++ ys') = sumBetween f xs ys + sumBetween f xs ys' := by
  simp only [sumBetween, List.map_append, List.sum_append, List.sum_map_add]

lemma sumBetween_flatMap_right (f : β → γ → Nat) (xs : List β) (E : δ → List γ) (ks : List δ) :
    sumBetween f xs (ks.flatMap E) = (ks.map fun k => sumBetween f xs (E k)).sum := by
  induction ks with
  | nil => simp [sumBetween]
  | cons k ks ih =>
      rw [List.flatMap_cons, sumBetween_append_right, ih, List.map_cons, List.sum_cons]

lemma sumBetween_perm (hx : xs ~ xs') (hy : ys ~ ys') :
    sumBetween f xs ys = sumBetween f xs' ys' := by
  have hrow : ∀ x, (ys.map (f x)).sum = (ys'.map (f x)).sum := fun x => (hy.map _).sum_eq
  simp only [sumBetween, hrow]
  exact (hx.map _).sum_eq

lemma sumBetween_map (f : β → γ → Nat) (a : δ → β) (b : ε → γ) (xs : List δ) (ys : List ε) :
    sumBetween f (xs.map a) (ys.map b) = sumBetween (fun x y => f (a x) (b y)) xs ys := by
  simp only [sumBetween, List.map_map, Function.comp_def]

lemma sumBetween_congr (h : ∀ x ∈ xs, ∀ y ∈ ys, f x y = g x y) :
    sumBetween f xs ys = sumBetween g xs ys := by
  rw [sumBetween, List.map_congr_left fun x hx => congrArg List.sum (List.map_congr_left (h x hx))]
  rfl

lemma sumBetween_eq_zero (h : ∀ x ∈ xs, ∀ y ∈ ys, f x y = 0) : sumBetween f xs ys = 0 := by
  rw [sumBetween_congr h]
  simp [sumBetween]

end Between

/-! ### Pairs from one list -/

section Pairs

variable {f g : β → β → Nat} {xs ys : List β}

lemma sumPairs_append (f : β → β → Nat) (xs ys : List β) :
    sumPairs f (xs ++ ys) = sumPairs f xs + sumBetween f xs ys + sumPairs f ys := by
  induction xs with
  | nil => simp [sumPairs, sumBetween]
  | cons x xs ih =>
      rw [List.cons_append, sumPairs, sumPairs, sumBetween_cons, ih, List.map_append,
        List.sum_append]
      ring

/-- Pairs from groups are pairs within a group and pairs between groups. -/
lemma sumPairs_flatMap (f : β → β → Nat) (E : γ → List β) (ks : List γ) :
    sumPairs f (ks.flatMap E) = (ks.map fun k => sumPairs f (E k)).sum +
      sumPairs (fun k l => sumBetween f (E k) (E l)) ks := by
  induction ks with
  | nil => rfl
  | cons k ks ih =>
      rw [List.flatMap_cons, sumPairs_append, ih, sumBetween_flatMap_right, List.map_cons,
        List.sum_cons, sumPairs]
      ring

lemma sumPairs_congr (h : xs.Pairwise fun x y => f x y = g x y) :
    sumPairs f xs = sumPairs g xs := by
  induction xs with
  | nil => rfl
  | cons x xs ih =>
      rw [List.pairwise_cons] at h
      rw [sumPairs, sumPairs, ih h.2, List.map_congr_left h.1]

lemma sumPairs_eq_zero (h : xs.Pairwise fun x y => f x y = 0) : sumPairs f xs = 0 := by
  induction xs with
  | nil => rfl
  | cons x xs ih =>
      rw [List.pairwise_cons] at h
      rw [sumPairs, ih h.2, List.map_congr_left h.1]
      simp

lemma sumPairs_map (f : β → β → Nat) (a : γ → β) (xs : List γ) :
    sumPairs f (xs.map a) = sumPairs (fun x y => f (a x) (a y)) xs := by
  induction xs with
  | nil => rfl
  | cons x xs ih => rw [List.map_cons, sumPairs, sumPairs, ih, List.map_map]; rfl

/-- Where it does not matter which of two entries comes first, the order does not matter. -/
lemma sumPairs_perm (hf : ∀ x y, f x y = f y x) (h : xs ~ ys) : sumPairs f xs = sumPairs f ys := by
  induction h with
  | nil => rfl
  | cons x h ih => rw [sumPairs, sumPairs, ih, (h.map _).sum_eq]
  | swap x y xs =>
      simp only [sumPairs, List.map_cons, List.sum_cons, hf y x]
      ring
  | trans _ _ ih ih' => exact ih.trans ih'

/-- Two neighbours that are exchanged change only what they add themselves. -/
lemma sumPairs_exchange (f : β → β → Nat) (xs : List β) (v w : β) (ys : List β) :
    sumPairs f (xs ++ w :: v :: ys) + f v w = sumPairs f (xs ++ v :: w :: ys) + f w v := by
  have hbetween : sumBetween f xs (w :: v :: ys) = sumBetween f xs (v :: w :: ys) :=
    sumBetween_perm (List.Perm.refl _) (List.Perm.swap v w ys)
  simp only [sumPairs_append, hbetween, sumPairs, List.map_cons, List.sum_cons]
  ring

end Pairs

/-! ### Groups -/

/-- Entries that are sorted into groups by a key. -/
lemma flatMap_filter_perm [DecidableEq γ] {key : β → γ} {ks : List γ} (hks : ks.Nodup)
    {xs : List β} (h : ∀ x ∈ xs, key x ∈ ks) :
    (ks.flatMap fun k => xs.filter (key · = k)) ~ xs := by
  induction ks generalizing xs with
  | nil =>
      cases xs with
      | nil => exact List.Perm.refl _
      | cons x xs => exact absurd (h x (by simp)) List.not_mem_nil
  | cons k ks ih =>
      rw [List.nodup_cons] at hks
      have hrest : ∀ x ∈ xs.filter (fun x => ¬ key x = k), key x ∈ ks := by
        intro x hx
        obtain ⟨hx, hne⟩ := List.mem_filter.mp hx
        exact (List.mem_cons.mp (h x hx)).resolve_left (by simpa using hne)
      have hgroups : (ks.flatMap fun l => (xs.filter fun x => ¬ key x = k).filter (key · = l)) =
          ks.flatMap fun l => xs.filter (key · = l) := by
        refine List.flatMap_congr fun l hl => ?_
        rw [List.filter_filter]
        refine List.filter_congr fun x _ => ?_
        rw [← Bool.decide_and, decide_eq_decide]
        exact ⟨And.left, fun hx => ⟨hx, fun hk => hks.1 (hk ▸ hx ▸ hl)⟩⟩
      rw [List.flatMap_cons, ← hgroups]
      refine ((ih hks.2 hrest).append_left _).trans ?_
      simpa using List.filter_append_perm (fun x => decide (key x = k)) xs

/-- Pairs of a symmetric relation are sorted by the groups of their entries. -/
lemma countPairs_groups [DecidableEq γ] {R : β → β → Prop} [DecidableRel R]
    (hR : ∀ x y, R x y ↔ R y x) {key : β → γ} {ks : List γ} (hks : ks.Nodup) {xs : List β}
    (h : ∀ x ∈ xs, key x ∈ ks) :
    countPairs R xs = (ks.map fun k => countPairs R (xs.filter (key · = k))).sum +
      sumPairs (fun k l => sumBetween (fun x y => if R x y then 1 else 0)
        (xs.filter (key · = k)) (xs.filter (key · = l))) ks := by
  have hcomm : ∀ x y, (if R x y then 1 else 0) = if R y x then 1 else 0 :=
    fun x y => if_congr (hR x y) rfl rfl
  rw [countPairs, ← sumPairs_perm hcomm (flatMap_filter_perm hks h), sumPairs_flatMap]
  rfl

end Drafting
