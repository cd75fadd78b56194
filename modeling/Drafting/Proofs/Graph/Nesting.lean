import Mathlib
import Drafting.Graph.Containment

/-!
Nested clusters.

What a cluster lies in is given by an array that may hold cycles at first.  Walking outward from a
cluster is iterating one partial function, so a walk longer than the number of clusters has met a
cluster twice.

* `Clusters.LiesIn`, `Clusters.Acyclic`: a cluster lies directly in another, and none lies in
  itself.
* `Clusters.leadsTo_iff`, `Clusters.mem_outwardFrom`: the walks of the library as iterations.
* `Clusters.acyclic_breakCycles`: no cluster lies in itself once the cycles are cut.
* `Clusters.outward_some`, `Clusters.mem_outward`, `Clusters.depth_eq_succ`: without cycles a walk
  of as many steps as there are clusters is complete.
-/

namespace Drafting.Graph.Clusters

variable {parents : Array (Option Nat)}

/-- A cluster lies directly in another. -/
def LiesIn (parents : Array (Option Nat)) (c d : Nat) : Prop := parents.getD c none = some d

/-- No cluster lies in itself. -/
def Acyclic (parents : Array (Option Nat)) : Prop := ∀ c, ¬ Relation.TransGen (LiesIn parents) c c

/-- Clusters lie in clusters that exist. -/
def InRange (parents : Array (Option Nat)) : Prop := ∀ c d, LiesIn parents c d → d < parents.size

/-- A cluster that lies in something exists. -/
lemma LiesIn.lt_size {c d : Nat} (h : LiesIn parents c d) : c < parents.size := by
  by_contra hc
  rw [LiesIn, Array.getD_eq_getD_getElem?, Array.getElem?_eq_none (by omega)] at h
  simp at h

/-! ### Walking outward -/

/-- One step outward. -/
def up (parents : Array (Option Nat)) (x : Option Nat) : Option Nat :=
  x.bind fun c => parents.getD c none

lemma up_iterate_none (parents : Array (Option Nat)) (n : Nat) : (up parents)^[n] none = none := by
  induction n with
  | zero => rfl
  | succ n ih => rw [Function.iterate_succ_apply]; exact ih

lemma liesIn_iff_up {c d : Nat} : LiesIn parents c d ↔ up parents (some c) = some d := Iff.rfl

/-- Every step of a walk that is not over starts at a cluster that exists. -/
lemma exists_lt_of_iterate_succ {x : Option Nat} {n d : Nat} (h : (up parents)^[n + 1] x = some d) :
    ∃ c, (up parents)^[n] x = some c ∧ c < parents.size := by
  rw [Function.iterate_succ_apply'] at h
  cases hc : (up parents)^[n] x with
  | none => rw [hc] at h; exact absurd h (by simp [up])
  | some c =>
      rw [hc] at h
      exact ⟨c, rfl, (liesIn_iff_up.mpr h).lt_size⟩

/-- A walk that is over stays over. -/
lemma iterate_eq_none_of_le {x : Option Nat} {m n : Nat} (hmn : m ≤ n)
    (h : (up parents)^[m] x = none) :
    (up parents)^[n] x = none := by
  obtain ⟨k, rfl⟩ := Nat.exists_eq_add_of_le hmn
  rw [Nat.add_comm, Function.iterate_add_apply, h, up_iterate_none]

lemma transGen_of_iterate {c d n : Nat} (h : (up parents)^[n + 1] (some c) = some d) :
    Relation.TransGen (LiesIn parents) c d := by
  induction n generalizing d with
  | zero => exact Relation.TransGen.single h
  | succ n ih =>
      obtain ⟨e, he, -⟩ := exists_lt_of_iterate_succ h
      rw [Function.iterate_succ_apply', he] at h
      exact (ih he).tail h

lemma exists_iterate_of_transGen {c d : Nat} (h : Relation.TransGen (LiesIn parents) c d) :
    ∃ n, (up parents)^[n + 1] (some c) = some d := by
  induction h with
  | single h => exact ⟨0, h⟩
  | tail _ h ih =>
      obtain ⟨n, hn⟩ := ih
      exact ⟨n + 1, by rw [Function.iterate_succ_apply', hn]; exact h⟩

/-- A walk with more steps than there are clusters meets a cluster twice. -/
lemma exists_iterate_eq {x : Option Nat}
    (h : ∀ i ≤ parents.size, ∃ c, (up parents)^[i] x = some c ∧ c < parents.size) :
    ∃ i j, i < j ∧ j ≤ parents.size ∧ (up parents)^[i] x = (up parents)^[j] x := by
  choose f hf hlt using h
  let walk : Fin (parents.size + 1) → Fin parents.size :=
    fun i => ⟨f i (by omega), hlt i (by omega)⟩
  obtain ⟨i, j, hne, heq⟩ := Fintype.exists_ne_map_eq_of_card_lt walk (by simp)
  have hval : f i (by omega) = f j (by omega) := by simpa [walk] using heq
  have hiter : (up parents)^[i.val] x = (up parents)^[j.val] x := by
    rw [hf i (by omega), hf j (by omega), hval]
  rcases Nat.lt_or_gt_of_ne (fun h => hne (Fin.ext h)) with hij | hij
  · exact ⟨i, j, hij, by omega, hiter⟩
  · exact ⟨j, i, hij, by omega, hiter.symm⟩

/-- What is reached from a cluster is the cluster or reached from the one above it. -/
lemma exists_iterate_some {fuel c d : Nat} :
    (∃ i < fuel + 1, (up parents)^[i] (some c) = some d) ↔
      c = d ∨ ∃ i < fuel, (up parents)^[i] (up parents (some c)) = some d := by
  constructor
  · rintro ⟨i, hi, hiter⟩
    cases i with
    | zero => exact Or.inl (Option.some.inj hiter)
    | succ i => exact Or.inr ⟨i, by omega, by rwa [Function.iterate_succ_apply] at hiter⟩
  · rintro (rfl | ⟨i, hi, hiter⟩)
    · exact ⟨0, by omega, rfl⟩
    · exact ⟨i + 1, by omega, by rw [Function.iterate_succ_apply]; exact hiter⟩

/-! ### Cutting cycles -/

lemma leadsTo_iff {start fuel : Nat} {x : Option Nat} :
    leadsTo parents start fuel x = true ↔ ∃ i < fuel, (up parents)^[i] x = some start := by
  induction fuel generalizing x with
  | zero => simp [leadsTo]
  | succ fuel ih =>
      cases x with
      | none => simp [leadsTo, up_iterate_none]
      | some c =>
          rw [leadsTo, Bool.or_eq_true, ih, beq_iff_eq, exists_iterate_some]
          rfl

/-- A cluster that lies in itself is met again after no more steps than there are clusters. -/
lemma exists_short_cycle {c n : Nat} (h : (up parents)^[n + 1] (some c) = some c) :
    ∃ i < parents.size, (up parents)^[i + 1] (some c) = some c := by
  induction n using Nat.strong_induction_on with
  | _ n ih =>
    by_cases hn : n < parents.size
    · exact ⟨n, hn, h⟩
    · have hall : ∀ i ≤ parents.size, ∃ d, (up parents)^[i] (some c) = some d ∧
          d < parents.size := by
        intro i hi
        cases hnext : (up parents)^[i + 1] (some c) with
        | none =>
            have hend := iterate_eq_none_of_le (show i + 1 ≤ n + 1 by omega) hnext
            exact absurd hend (by rw [h]; simp)
        | some d => exact exists_lt_of_iterate_succ hnext
      -- leaving out what lies between the two meetings gives a shorter walk
      obtain ⟨i, j, hij, hj, heq⟩ := exists_iterate_eq hall
      have hshort : (up parents)^[(n + i - j) + 1] (some c) = some c := by
        rw [show n + i - j + 1 = (n + 1 - j) + i from by omega, Function.iterate_add_apply, heq,
          ← Function.iterate_add_apply, show n + 1 - j + j = n + 1 from by omega]
        exact h
      exact ih (n + i - j) (by omega) hshort

/-- Clusters that lie in themselves are found. -/
lemma leadsTo_of_transGen {c : Nat} (h : Relation.TransGen (LiesIn parents) c c) :
    leadsTo parents c (parents.size + 1) (parents.getD c none) = true := by
  obtain ⟨n, hn⟩ := exists_iterate_of_transGen h
  obtain ⟨i, hi, hiter⟩ := exists_short_cycle hn
  rw [leadsTo_iff]
  exact ⟨i, by omega, by rwa [Function.iterate_succ_apply] at hiter⟩

lemma getD_setIfInBounds_none (parents : Array (Option Nat)) (start c : Nat) :
    (parents.setIfInBounds start none).getD c none =
      if start = c then none else parents.getD c none := by
  rw [Array.getD_eq_getD_getElem?, Array.getD_eq_getD_getElem?, Array.getElem?_setIfInBounds]
  split
  · split <;> simp
  · rfl

/-- A step of the cutting removes links and adds none. -/
lemma breakCycle_liesIn {state : Array (Option Nat) × List Nat} {start c d : Nat}
    (h : LiesIn (breakCycle state start).1 c d) : LiesIn state.1 c d := by
  obtain ⟨parents, broken⟩ := state
  rw [breakCycle] at h
  split at h
  · rw [LiesIn, getD_setIfInBounds_none] at h
    split at h
    · simp at h
    · exact h
  · exact h

/-- After its step a cluster does not lie in itself. -/
lemma breakCycle_no_cycle (state : Array (Option Nat) × List Nat) (start : Nat) :
    ¬ Relation.TransGen (LiesIn (breakCycle state start).1) start start := by
  intro hcycle
  have hold : Relation.TransGen (LiesIn state.1) start start :=
    Relation.TransGen.mono (fun _ _ => breakCycle_liesIn) _ _ hcycle
  obtain ⟨parents, broken⟩ := state
  have hcut : (breakCycle (parents, broken) start).1 = parents.setIfInBounds start none := by
    rw [breakCycle]
    simp only [leadsTo_of_transGen hold, if_true]
  obtain ⟨d, hd, -⟩ := Relation.TransGen.head'_iff.mp hcycle
  rw [hcut, LiesIn, getD_setIfInBounds_none, if_pos rfl] at hd
  simp at hd

lemma size_breakCycle (state : Array (Option Nat) × List Nat) (start : Nat) :
    (breakCycle state start).1.size = state.1.size := by
  obtain ⟨parents, broken⟩ := state
  rw [breakCycle]
  simp only
  split <;> simp

/-- After the steps of some clusters none of them lies in itself, and no link is new. -/
lemma foldl_breakCycle (starts : List Nat) (state : Array (Option Nat) × List Nat) :
    (∀ c d, LiesIn (starts.foldl breakCycle state).1 c d → LiesIn state.1 c d) ∧
      ∀ c ∈ starts, ¬ Relation.TransGen (LiesIn (starts.foldl breakCycle state).1) c c := by
  induction starts generalizing state with
  | nil => exact ⟨fun _ _ h => h, by simp⟩
  | cons start starts ih =>
      obtain ⟨hsub, hdone⟩ := ih (breakCycle state start)
      refine ⟨fun c d h => breakCycle_liesIn (hsub c d h), fun c hc hcycle => ?_⟩
      rcases List.mem_cons.mp hc with rfl | hc
      · exact breakCycle_no_cycle state c (Relation.TransGen.mono hsub _ _ hcycle)
      · exact hdone c hc hcycle

/-- Cutting keeps the number of clusters. -/
lemma size_breakCycles (parents : Array (Option Nat)) :
    (breakCycles parents).1.size = parents.size := by
  have key : ∀ (starts : List Nat) (state : Array (Option Nat) × List Nat),
      (starts.foldl breakCycle state).1.size = state.1.size := by
    intro starts
    induction starts with
    | nil => exact fun _ => rfl
    | cons start starts ih => exact fun state => (ih _).trans (size_breakCycle state start)
  exact key _ _

/-- Cutting removes links and adds none. -/
lemma breakCycles_liesIn {c d : Nat} (h : LiesIn (breakCycles parents).1 c d) :
    LiesIn parents c d :=
  (foldl_breakCycle (List.range parents.size) (parents, [])).1 c d h

/-- **Once the cycles are cut, no cluster lies in itself.** -/
lemma acyclic_breakCycles (parents : Array (Option Nat)) : Acyclic (breakCycles parents).1 := by
  intro c hcycle
  obtain ⟨d, hd, -⟩ := Relation.TransGen.head'_iff.mp hcycle
  have hc : c < parents.size := (breakCycles_liesIn hd).lt_size
  exact (foldl_breakCycle (List.range parents.size) (parents, [])).2 c
    (List.mem_range.mpr hc) hcycle

/-! ### Walks without cycles -/

lemma mem_outwardFrom {fuel d : Nat} {x : Option Nat} :
    d ∈ outwardFrom parents fuel x ↔ ∃ i < fuel, (up parents)^[i] x = some d := by
  induction fuel generalizing x with
  | zero => simp [outwardFrom]
  | succ fuel ih =>
      cases x with
      | none => simp [outwardFrom, up_iterate_none]
      | some c =>
          rw [outwardFrom, List.mem_cons, ih, exists_iterate_some, eq_comm]
          rfl

/-- One more step adds the cluster that is reached by it. -/
lemma outwardFrom_succ (parents : Array (Option Nat)) (fuel : Nat) (x : Option Nat) :
    outwardFrom parents (fuel + 1) x =
      outwardFrom parents fuel x ++ ((up parents)^[fuel] x).toList := by
  induction fuel generalizing x with
  | zero => cases x <;> rfl
  | succ fuel ih =>
      cases x with
      | none => simp [outwardFrom, up_iterate_none]
      | some c =>
          rw [outwardFrom, ih, outwardFrom, Function.iterate_succ_apply]
          rfl

section Acyclic

variable (ha : Acyclic parents) (hr : InRange parents)
include ha hr

/-- Without cycles a walk is over after as many steps as there are clusters. -/
lemma iterate_size_eq_none {x : Option Nat} (hx : ∀ c, x = some c → c < parents.size) :
    (up parents)^[parents.size] x = none := by
  by_contra hne
  have hall : ∀ i ≤ parents.size, ∃ d, (up parents)^[i] x = some d ∧ d < parents.size := by
    intro i hi
    cases hiter : (up parents)^[i] x with
    | none => exact absurd (iterate_eq_none_of_le hi hiter) hne
    | some d =>
        refine ⟨d, rfl, ?_⟩
        cases i with
        | zero => exact hx d hiter
        | succ i =>
            obtain ⟨c, hc, -⟩ := exists_lt_of_iterate_succ hiter
            rw [Function.iterate_succ_apply', hc] at hiter
            exact hr c d hiter
  obtain ⟨i, j, hij, hj, heq⟩ := exists_iterate_eq hall
  obtain ⟨c, hc, -⟩ := hall i (by omega)
  refine ha c (transGen_of_iterate (n := j - i - 1) ?_)
  rw [← hc, ← Function.iterate_add_apply, show j - i - 1 + 1 + i = j from by omega, heq]

/-- The clusters around a cluster are itself and those around what it lies in. -/
lemma outward_some {c : Nat} (hc : c < parents.size) :
    outward parents (some c) = c :: outward parents (parents.getD c none) := by
  have hover := iterate_size_eq_none ha hr (x := some c) (by simpa using hc)
  have hlong := outwardFrom_succ parents parents.size (some c)
  rw [hover, Option.toList_none, List.append_nil, outwardFrom] at hlong
  exact hlong.symm

omit ha hr in
lemma outward_none (parents : Array (Option Nat)) : outward parents none = [] := by
  rw [outward]
  cases parents.size <;> rfl

/-- The clusters around a cluster are those it lies in, directly or not. -/
lemma mem_outward {c d : Nat} (hc : c < parents.size) :
    d ∈ outward parents (some c) ↔ Relation.ReflTransGen (LiesIn parents) c d := by
  rw [outward, mem_outwardFrom]
  constructor
  · rintro ⟨i, -, hiter⟩
    cases i with
    | zero => rw [Option.some.inj hiter]
    | succ i => exact (transGen_of_iterate hiter).to_reflTransGen
  · intro h
    rcases Relation.reflTransGen_iff_eq_or_transGen.mp h with rfl | h
    · exact ⟨0, by omega, rfl⟩
    · obtain ⟨n, hn⟩ := exists_iterate_of_transGen h
      refine ⟨n + 1, ?_, hn⟩
      by_contra hlarge
      have hover := iterate_size_eq_none ha hr (x := some c) (by simpa using hc)
      rw [iterate_eq_none_of_le (by omega) hover] at hn
      simp at hn

/-- Clusters around a cluster exist. -/
lemma lt_size_of_mem_outward {c d : Nat} (hc : c < parents.size)
    (hd : d ∈ outward parents (some c)) :
    d < parents.size := by
  rw [mem_outward ha hr hc] at hd
  rcases Relation.ReflTransGen.cases_tail hd with rfl | ⟨e, -, he⟩
  · exact hc
  · exact hr e d he

/-- A cluster is nested one level deeper than what it lies in. -/
lemma depth_eq_succ {c d : Nat} (h : LiesIn parents c d) :
    depth parents c = depth parents d + 1 := by
  rw [depth, outward_some ha hr h.lt_size, List.length_cons, depth, h]

/-- Walking outward from a cluster, one reaches an outermost one. -/
lemma exists_outermost (c : Nat) :
    ∃ d, Relation.ReflTransGen (LiesIn parents) c d ∧ parents.getD d none = none := by
  generalize hn : depth parents c = n
  induction n using Nat.strong_induction_on generalizing c with
  | _ n ih =>
    cases hc : parents.getD c none with
    | none => exact ⟨c, Relation.ReflTransGen.refl, hc⟩
    | some d =>
        have hd : LiesIn parents c d := hc
        have hdepth := depth_eq_succ ha hr hd
        obtain ⟨e, hreach, he⟩ := ih (depth parents d) (by omega) d rfl
        exact ⟨e, hreach.head hd, he⟩

/-- Between something in a cluster and a container around it there is a cluster directly in the
container. -/
lemma exists_mem_outward {x container : Option Nat} (hx : ∀ c, x = some c → c < parents.size)
    (hne : x ≠ container)
    (hcontainer : container = none ∨ ∃ k, container = some k ∧ k ∈ outward parents x) :
    ∃ d ∈ outward parents x, parents.getD d none = container := by
  cases x with
  | none =>
      rcases hcontainer with rfl | ⟨k, -, hk⟩
      · exact absurd rfl hne
      · rw [outward_none] at hk
        simp at hk
  | some c =>
      have hc := hx c rfl
      rcases hcontainer with rfl | ⟨k, rfl, hk⟩
      · obtain ⟨d, hreach, hd⟩ := exists_outermost ha hr c
        exact ⟨d, (mem_outward ha hr hc).mpr hreach, hd⟩
      · rw [mem_outward ha hr hc] at hk
        rcases Relation.ReflTransGen.cases_tail hk with rfl | ⟨d, hreach, hd⟩
        · exact absurd rfl hne
        · exact ⟨d, (mem_outward ha hr hc).mpr hreach, hd⟩

end Acyclic

end Drafting.Graph.Clusters
