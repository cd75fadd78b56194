import Mathlib

/-!
Entries of lists, and of arrays that are written one after the other.

* `getD_setIfInBounds_self`, `getD_setIfInBounds_ne`: an array after one entry is written.
* `size_foldl`, `size_eq_of_getElem?`, `mem_modify`, `of_getElem?_modify`, `getD_modify`: the size
  and the entries of an array that is changed step by step.
* `of_getElem?_concat`: the entries of a list with one more.
* `getD_foldl_set`, `getD_foldl_set_of_notMem`: an array after a list of entries is written.
* `forall_foldl_modify`, `forall_foldl_modify_of_mem`: an entry after a list of changes.
* `map_fst_zip_sublist`, `map_fst_map_zip_sublist`: the keys of entries that are taken from two
  lists.
* `map_modify`: an entry is changed before or after a view is taken.
* `exists_of_lt_count`, `getElem?_filter_range`: the numbers of those entries that are counted.
* `filter_key_eq`: an entry is found by its key.
* `or_of_pairwise`, `idxOf_lt_of_sublist`: two different entries of a list stand in one order or the
  other, and the first one has the smaller number.
-/

namespace Drafting

open scoped List

variable {β : Type}

lemma getD_setIfInBounds_self {a : Array β} {i : Nat} (hi : i < a.size) (x d : β) :
    (a.setIfInBounds i x).getD i d = x := by
  rw [Array.getD_eq_getD_getElem?, Array.getElem?_setIfInBounds_self, if_pos hi, Option.getD_some]

lemma getD_setIfInBounds_ne {i j : Nat} (h : i ≠ j) (a : Array β) (x d : β) :
    (a.setIfInBounds i x).getD j d = a.getD j d := by
  rw [Array.getD_eq_getD_getElem?, Array.getElem?_setIfInBounds_ne h, Array.getD_eq_getD_getElem?]

/-- A size that every step keeps. -/
lemma size_foldl {γ : Type} {f : Array β → γ → Array β} (hf : ∀ a x, (f a x).size = a.size)
    (xs : List γ) (a : Array β) : (xs.foldl f a).size = a.size := by
  induction xs generalizing a with
  | nil => rfl
  | cons x xs ih => rw [List.foldl_cons, ih, hf]

/-- An entry of a modified array is an old one or a modified one. -/
lemma mem_modify {a : Array β} {i : Nat} {f : β → β} {y : β} (h : y ∈ a.modify i f) :
    y ∈ a ∨ ∃ x ∈ a, y = f x := by
  obtain ⟨j, hj, rfl⟩ := Array.getElem_of_mem h
  rw [Array.size_modify] at hj
  rw [Array.getElem_modify]
  split
  · exact Or.inr ⟨_, Array.getElem_mem hj, rfl⟩
  · exact Or.inl (Array.getElem_mem hj)

/-- The entries of a modified array with their numbers. -/
lemma of_getElem?_modify {a : Array β} {i j : Nat} {f : β → β} {y : β}
    (h : (a.modify i f)[j]? = some y) :
    i ≠ j ∧ a[j]? = some y ∨ i = j ∧ ∃ x, a[j]? = some x ∧ f x = y := by
  rw [Array.getElem?_modify] at h
  split at h
  · next hij => exact Or.inr ⟨hij, Option.map_eq_some_iff.mp h⟩
  · next hij => exact Or.inl ⟨hij, h⟩

/-- The entries of a list with one more at its end. -/
lemma of_getElem?_concat {xs : List β} {x y : β} {i : Nat} (h : (xs ++ [x])[i]? = some y) :
    xs[i]? = some y ∨ i = xs.length ∧ x = y := by
  rw [List.getElem?_append] at h
  split at h
  · exact Or.inl h
  · next hi =>
      obtain ⟨hlt, heq⟩ := List.getElem?_eq_some_iff.mp h
      rw [List.length_singleton] at hlt
      exact Or.inr ⟨by omega, by simpa using heq⟩

section Changes

variable {γ : Type} {p : γ → Nat} {f : γ → β → β} {P : β → Prop} {k : Nat} {xs : List γ}

/-- What all changes keep holds of an entry in the end. -/
lemma forall_foldl_modify (hkeep : ∀ x ∈ xs, ∀ v, P v → P (f x v)) {a : Array β}
    (h : ∀ v, a[k]? = some v → P v) :
    ∀ v, (xs.foldl (fun a x => a.modify (p x) (f x)) a)[k]? = some v → P v := by
  induction xs generalizing a with
  | nil => exact h
  | cons x xs ih =>
      rw [List.forall_mem_cons] at hkeep
      refine ih hkeep.2 fun v hv => ?_
      obtain ⟨-, hold⟩ | ⟨-, old, hold, rfl⟩ := of_getElem?_modify hv
      · exact h v hold
      · exact hkeep.1 old (h old hold)

/-- What one change brings about and all keep holds of an entry in the end. -/
lemma forall_foldl_modify_of_mem (hkeep : ∀ x ∈ xs, ∀ v, P v → P (f x v)) {x : γ} (hx : x ∈ xs)
    (hset : ∀ v, P (f x v)) (a : Array β) :
    ∀ v, (xs.foldl (fun a x => a.modify (p x) (f x)) a)[p x]? = some v → P v := by
  obtain ⟨before, after, rfl⟩ := List.append_of_mem hx
  rw [List.foldl_append, List.foldl_cons]
  refine forall_foldl_modify (fun y hy => hkeep y ?_) fun v hv => ?_
  · exact List.mem_append_right _ (List.mem_cons_of_mem _ hy)
  · obtain ⟨hne, -⟩ | ⟨-, old, -, rfl⟩ := of_getElem?_modify hv
    · exact absurd rfl hne
    · exact hset old

end Changes

/-- An array that is changed entry by entry keeps its size. -/
lemma size_eq_of_getElem? {xs ys : Array β} {g : Nat → β → β}
    (h : ∀ k, ys[k]? = xs[k]?.map (g k)) : ys.size = xs.size := by
  refine Nat.le_antisymm ?_ ?_
  · rw [← Array.getElem?_eq_none_iff, h, Array.getElem?_eq_none le_rfl, Option.map_none]
  · rw [← Array.getElem?_eq_none_iff, ← Option.map_eq_none_iff, ← h, Array.getElem?_eq_none le_rfl]

lemma size_foldl_set (entries : List (Nat × β)) (a : Array β) :
    (entries.foldl (fun a e => a.setIfInBounds e.1 e.2) a).size = a.size := by
  induction entries generalizing a with
  | nil => rfl
  | cons e entries ih => rw [List.foldl_cons, ih, Array.size_setIfInBounds]

/-- What is not written stays. -/
lemma getD_foldl_set_of_notMem {entries : List (Nat × β)} {i : Nat} (h : i ∉ entries.map Prod.fst)
    (a : Array β) (d : β) :
    (entries.foldl (fun a e => a.setIfInBounds e.1 e.2) a).getD i d = a.getD i d := by
  induction entries generalizing a with
  | nil => rfl
  | cons e entries ih =>
      rw [List.map_cons, List.mem_cons, not_or] at h
      rw [List.foldl_cons, ih h.2, getD_setIfInBounds_ne (Ne.symm h.1)]

/-- What is written once is found there. -/
lemma getD_foldl_set {entries : List (Nat × β)} {i : Nat} {x : β}
    (hnodup : (entries.map Prod.fst).Nodup) (hmem : (i, x) ∈ entries) {a : Array β}
    (hi : i < a.size) (d : β) :
    (entries.foldl (fun a e => a.setIfInBounds e.1 e.2) a).getD i d = x := by
  induction entries generalizing a with
  | nil => simp at hmem
  | cons e entries ih =>
      rw [List.map_cons, List.nodup_cons] at hnodup
      rw [List.foldl_cons]
      rcases List.mem_cons.mp hmem with rfl | hmem
      · rw [getD_foldl_set_of_notMem hnodup.1, getD_setIfInBounds_self hi]
      · exact ih hnodup.2 hmem (by rwa [Array.size_setIfInBounds])

/-- Entering values keeps an agreement at a position. -/
lemma getD_foldl_set_congr (entries : List (Nat × β)) {a a' : Array β} {i : Nat} (hi : i < a.size)
    (hi' : i < a'.size) {d : β} (h : a'.getD i d = a.getD i d) :
    (entries.foldl (fun a e => a.setIfInBounds e.1 e.2) a').getD i d =
      (entries.foldl (fun a e => a.setIfInBounds e.1 e.2) a).getD i d := by
  induction entries generalizing a a' with
  | nil => exact h
  | cons e entries ih =>
      obtain ⟨k, x⟩ := e
      refine ih (by simpa using hi) (by simpa using hi') ?_
      by_cases hk : k = i
      · rw [hk, getD_setIfInBounds_self hi, getD_setIfInBounds_self hi']
      · rw [getD_setIfInBounds_ne hk, getD_setIfInBounds_ne hk, h]

/-- The keys of entries that are taken from two lists. -/
lemma map_fst_zip_sublist {γ : Type} (keys : List β) (values : List γ) :
    (keys.zip values).map Prod.fst <+ keys := by
  induction keys generalizing values with
  | nil => simp
  | cons k keys ih =>
      cases values with
      | nil => simp
      | cons v values => exact (ih values).cons_cons k

/-- The keys stay when the values are changed. -/
lemma map_fst_map_zip_sublist {γ δ : Type} (f : γ → δ) (keys : List β) (values : List γ) :
    ((keys.zip values).map fun e => (e.1, f e.2)).map Prod.fst <+ keys := by
  rw [List.map_map]
  exact map_fst_zip_sublist keys values

/-- Two different entries of a list stand in one order or the other. -/
lemma or_of_pairwise {R : β → β → Prop} {xs : List β} (h : xs.Pairwise R) {x y : β} (hx : x ∈ xs)
    (hy : y ∈ xs) (hne : x ≠ y) : R x y ∨ R y x := by
  obtain ⟨i, hi, rfl⟩ := List.getElem_of_mem hx
  obtain ⟨j, hj, rfl⟩ := List.getElem_of_mem hy
  rw [List.pairwise_iff_getElem] at h
  rcases Nat.lt_trichotomy i j with hij | rfl | hij
  · exact Or.inl (h i j hi hj hij)
  · exact absurd rfl hne
  · exact Or.inr (h j i hj hi hij)

/-- In a list without repeats, the first of two entries in order has the smaller number. -/
lemma idxOf_lt_of_sublist [DecidableEq β] {xs : List β} (hn : xs.Nodup) {x y : β}
    (h : [x, y] <+ xs) : xs.idxOf x < xs.idxOf y := by
  have hordered : xs.Pairwise fun x y => xs.idxOf x < xs.idxOf y := by
    refine List.pairwise_iff_getElem.mpr fun i j hi hj hij => ?_
    rwa [hn.idxOf_getElem, hn.idxOf_getElem]
  exact List.pairwise_iff_forall_sublist.mp hordered h

/-- Entries that are told apart by a key are found by it. -/
lemma filter_key_eq {γ : Type} [DecidableEq γ] {key : β → γ} {xs : List β} (h : (xs.map key).Nodup)
    {x : β} (hx : x ∈ xs) : xs.filter (key · = key x) = [x] := by
  obtain ⟨before, after, rfl⟩ := List.append_of_mem hx
  rw [List.map_append, List.map_cons, List.nodup_append, List.nodup_cons] at h
  obtain ⟨-, ⟨hafter, -⟩, hbefore⟩ := h
  have hnone : before.filter (key · = key x) = [] := by
    rw [List.filter_eq_nil_iff]
    intro y hy hkey
    exact hbefore (key y) (List.mem_map_of_mem hy) (key x) List.mem_cons_self
      (of_decide_eq_true hkey)
  have hnone' : after.filter (key · = key x) = [] := by
    rw [List.filter_eq_nil_iff]
    intro y hy hkey
    exact hafter (of_decide_eq_true hkey ▸ List.mem_map_of_mem hy)
  rw [List.filter_append, List.filter_cons_of_pos (by simp), hnone, hnone']
  rfl

/-- Looking an entry up in an array of which one entry was changed. -/
lemma getD_modify (xs : Array β) (j : Nat) (f : β → β) (k : Nat) (default : β) :
    (xs.modify j f).getD k default =
      if j = k ∧ j < xs.size then f (xs.getD k default) else xs.getD k default := by
  rw [Array.getD_eq_getD_getElem?, Array.getD_eq_getD_getElem?, Array.getElem?_modify]
  by_cases hjk : j = k
  · subst hjk
    by_cases hj : j < xs.size
    · simp [hj]
    · simp [hj]
  · simp [hjk]

lemma getD_modify_of_lt {xs : Array β} {j : Nat} (hj : j < xs.size) (f : β → β) (k : Nat)
    (default : β) :
    (xs.modify j f).getD k default =
      if j = k then f (xs.getD k default) else xs.getD k default := by
  rw [getD_modify]
  simp only [hj, and_true]

/-- Only the entry that is changed matters. -/
lemma modify_congr {xs : Array β} {j : Nat} {f g : β → β} (default : β)
    (h : f (xs.getD j default) = g (xs.getD j default)) : xs.modify j f = xs.modify j g := by
  refine Array.ext (by simp) fun i hi _ => ?_
  rw [Array.size_modify] at hi
  rw [Array.getElem_modify, Array.getElem_modify]
  split
  · next hji =>
      subst hji
      simpa [Array.getD_eq_getD_getElem?, hi] using h
  · rfl

/-- A change and a view that go together. -/
lemma map_modify {γ : Type} {f : β → β} {g : β → γ} {f' : γ → γ} (h : ∀ x, g (f x) = f' (g x))
    (xs : Array β) (j : Nat) : (xs.modify j f).map g = (xs.map g).modify j f' := by
  refine Array.ext (by simp) fun i hi _ => ?_
  rw [Array.size_map, Array.size_modify] at hi
  rw [Array.getElem_map, Array.getElem_modify, Array.getElem_modify]
  split
  · rw [h, Array.getElem_map]
  · rw [Array.getElem_map]

/-! ### Numbers of entries -/

section Counting

variable {p : Nat → Prop} [DecidablePred p] {i n : Nat}

/-- Every number below a count is the number of something counted. -/
lemma exists_of_lt_count {k : Nat} (h : k < Nat.count p n) : ∃ i < n, p i ∧ Nat.count p i = k := by
  induction n with
  | zero => exact absurd h (Nat.not_lt_zero k)
  | succ n ih =>
      by_cases hn : p n
      · rw [Nat.count_succ, if_pos hn, Nat.lt_succ_iff_lt_or_eq] at h
        rcases h with h | rfl
        · obtain ⟨i, hi, hrest⟩ := ih h
          exact ⟨i, Nat.lt_succ_of_lt hi, hrest⟩
        · exact ⟨n, Nat.lt_succ_self n, hn, rfl⟩
      · rw [Nat.count_succ, if_neg hn] at h
        obtain ⟨i, hi, hrest⟩ := ih h
        exact ⟨i, Nat.lt_succ_of_lt hi, hrest⟩

lemma length_filter_range (n : Nat) : ((List.range n).filter p).length = Nat.count p n := by
  rw [← List.countP_eq_length_filter, Nat.count]

/-- What is counted stands at its number. -/
lemma getElem?_filter_range (hi : i < n) (hp : p i) :
    ((List.range n).filter p)[Nat.count p i]? = some i := by
  induction n with
  | zero => exact absurd hi (Nat.not_lt_zero i)
  | succ n ih =>
      rw [List.range_succ, List.filter_append]
      rcases Nat.lt_succ_iff_lt_or_eq.mp hi with hi | rfl
      · rw [List.getElem?_append_left, ih hi]
        rw [length_filter_range]
        exact Nat.count_strict_mono hp hi
      · rw [List.getElem?_append_right (length_filter_range i).le, length_filter_range,
          Nat.sub_self]
        simp [hp]

end Counting

end Drafting
