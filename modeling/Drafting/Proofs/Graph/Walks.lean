import Mathlib
import Drafting.Proofs.Graph.Cycles

/-!
Walks outward once cycles are cut.

Each cycle of clusters that lie in each other loses one link, that of its first cluster, and no
other link is lost.  A walk outward that goes on for as long as there is something around it then
comes to an end, so the bound on the steps of the library's walks is never felt.

* `Clusters.Walk`: a walk outward without any bound on its steps.
* `Clusters.Mends`, `Clusters.mends_breakCycles`: every cycle is cut once, at its first cluster.
* `Clusters.WalksEnd`, `Clusters.walksEnd_of_acyclic`: walks end, and depths, surrounding clusters
  and first nodes are what the walks without a bound give.
* `Clusters.breakCycles_mends_and_walks_end`: both hold of what is left of any containment.
-/

namespace Drafting.Graph.Clusters

open Relation

variable {parents : Array (Option Nat)}

/-- A walk outward, with the clusters it passes.  It is over when there is nothing around; a walk
into a cycle is never over, so none is given. -/
inductive Walk (parents : Array (Option Nat)) : Option Nat → List Nat → Prop
  | stop : Walk parents none []
  | step {c : Nat} {passed : List Nat} (h : Walk parents (parents.getD c none) passed) :
      Walk parents (some c) (c :: passed)

/-- Every cycle is cut once, at its first cluster, and nothing else changes. -/
structure Mends (parents mended : Array (Option Nat)) : Prop where
  /-- The clusters are the same. -/
  size : mended.size = parents.size
  /-- No cluster lies in itself any more. -/
  acyclic : Acyclic mended
  /-- Of the clusters of a cycle the first one becomes an outermost one, and only that one. -/
  cut : ∀ z, IsCycle (LiesIn parents) z → ∃ c ∈ z, (∀ d ∈ z, c ≤ d) ∧
    mended.getD c none = none ∧ ∀ d ∈ z, d ≠ c → mended.getD d none = parents.getD d none
  /-- What is on no cycle lies where it did. -/
  kept : ∀ c, (∀ z, IsCycle (LiesIn parents) z → c ∉ z) →
    mended.getD c none = parents.getD c none

/-- Walks outward end, and what the library finds by walks of bounded length is what they give. -/
structure WalksEnd (parents : Array (Option Nat)) : Prop where
  /-- The clusters around something are those that the walk from it passes. -/
  outward : ∀ x, (∀ c, x = some c → c < parents.size) → Walk parents x (outward parents x)
  /-- The depth of a cluster counts the steps of the walk from what it lies in. -/
  depth : ∀ c < parents.size, ∃ passed, Walk parents (parents.getD c none) passed ∧
    depth parents c = passed.length + 1
  /-- A cluster is one level deeper than what it lies in. -/
  depth_nested : ∀ c d, LiesIn parents c d → Clusters.depth parents c = Clusters.depth parents d + 1
  /-- The first node in a cluster is the first one from which the walk passes the cluster. -/
  first : ∀ nodes : List (Option Nat), (∀ x ∈ nodes, ∀ c, x = some c → c < parents.size) →
    ∀ c n, Containment.clusterKey (nodes.map (Clusters.outward parents)) c = ⟨false, n, 1 + c⟩ ↔
      IsLeast {n | ∃ x passed, nodes[n]? = some x ∧ Walk parents x passed ∧ c ∈ passed} n

/-! ### Cutting -/

/-- The links that are left. -/
lemma getD_breakCycles (parents : Array (Option Nat)) (c : Nat) :
    (breakCycles parents).1.getD c none =
      if c ∈ (breakCycles parents).2 then none else parents.getD c none := by
  refine Option.ext fun d => ?_
  have hlink : LiesIn (breakCycles parents).1 c d ↔
      LiesIn parents c d ∧ c ∉ (breakCycles parents).2 :=
        (cut_range parents parents.size).liesIn c d
  rw [LiesIn, LiesIn] at hlink
  rw [hlink]
  split
  next hcut => simp [hcut]
  next hcut => simp [hcut]

/-- A cluster that is not the first of a cycle stays where it is. -/
lemma getD_breakCycles_of_not_isFirst {c : Nat} (h : ¬ IsFirst parents c) :
    (breakCycles parents).1.getD c none = parents.getD c none := by
  rw [getD_breakCycles, if_neg fun hcut => h (mem_cuts.mp hcut)]

/-- A cycle is a way from each of its clusters to all of them, so its first cluster is on it. -/
lemma exists_isFirst_mem {z : Cycle Nat} (hz : IsCycle (LiesIn parents) z) :
    ∃ c ∈ z, IsFirst parents c := by
  obtain ⟨d, hd⟩ := hz.exists_mem
  obtain ⟨c, hdc, hfirst⟩ := exists_isFirst (hz.transGen hd hd)
  exact ⟨c, hz.mem_of_transGen (rightUnique_liesIn parents) hd hdc, hfirst⟩

/-- **Every cycle is cut once, at its first cluster.** -/
lemma mends_breakCycles (parents : Array (Option Nat)) : Mends parents (breakCycles parents).1 where
  size := size_breakCycles parents
  acyclic := acyclic_breakCycles parents
  cut := by
    intro z hz
    obtain ⟨c, hc, hfirst⟩ := exists_isFirst_mem hz
    refine ⟨c, hc, fun d hd => hfirst.2 d (hz.transGen hc hd), ?_, fun d hd hne => ?_⟩
    · rw [getD_breakCycles, if_pos (mem_cuts.mpr hfirst)]
    · exact getD_breakCycles_of_not_isFirst fun hfirst' =>
        hne (hfirst'.eq hfirst (hz.transGen hd hc))
  kept := by
    intro c hc
    refine getD_breakCycles_of_not_isFirst fun hfirst => ?_
    obtain ⟨z, hz, hmem⟩ := exists_isCycle (rightUnique_liesIn parents) hfirst.1
    exact hc z hz hmem

lemma inRange_breakCycles (hr : InRange parents) : InRange (breakCycles parents).1 := by
  intro c d h
  rw [size_breakCycles]
  exact hr c d (breakCycles_liesIn h)

/-! ### Walking -/

/-- There is one walk at most from a cluster. -/
lemma Walk.unique {x : Option Nat} {passed passed' : List Nat} (h : Walk parents x passed)
    (h' : Walk parents x passed') : passed = passed' := by
  induction h generalizing passed' with
  | stop =>
      cases h'
      rfl
  | step _ ih =>
      cases h' with
      | step h' => rw [ih h']

section Acyclic

variable (ha : Acyclic parents) (hr : InRange parents)
include ha hr

/-- **Without cycles every walk ends.** -/
lemma walk_outward {x : Option Nat} (hx : ∀ c, x = some c → c < parents.size) :
    Walk parents x (outward parents x) := by
  -- each step outward leaves one cluster less to pass
  generalize hn : (outward parents x).length = n
  induction n generalizing x with
  | zero =>
      cases x with
      | none =>
          rw [outward_none]
          exact Walk.stop
      | some c =>
          rw [outward_some ha hr (hx c rfl)] at hn
          cases hn
  | succ n ih =>
      cases x with
      | none =>
          rw [outward_none] at hn
          cases hn
      | some c =>
          rw [outward_some ha hr (hx c rfl)] at hn ⊢
          exact Walk.step (ih (fun d hd => hr c d hd) (Nat.succ.inj hn))

/-- The first node in a cluster. -/
lemma clusterKey_eq_iff {nodes : List (Option Nat)}
    (hnodes : ∀ x ∈ nodes, ∀ c, x = some c → c < parents.size) (c n : Nat) :
    Containment.clusterKey (nodes.map (outward parents)) c = ⟨false, n, 1 + c⟩ ↔
      IsLeast {n | ∃ x passed, nodes[n]? = some x ∧ Walk parents x passed ∧ c ∈ passed} n := by
  have hfind : Containment.clusterKey (nodes.map (outward parents)) c = ⟨false, n, 1 + c⟩ ↔
      (nodes.map (outward parents)).findIdx? (·.contains c) = some n := by
    rw [Containment.clusterKey]
    cases (nodes.map (outward parents)).findIdx? (·.contains c) with
    | none => simp
    | some node => simp
  have hpasses : ∀ k (hk : k < nodes.length),
      (∃ x passed, nodes[k]? = some x ∧ Walk parents x passed ∧ c ∈ passed) ↔
        c ∈ outward parents nodes[k] := by
    intro k hk
    have hwalk := walk_outward ha hr (hnodes nodes[k] (List.getElem_mem hk))
    constructor
    · rintro ⟨x, passed, hx, hpassed, hc⟩
      obtain rfl : nodes[k] = x := by simpa [hk] using hx
      rwa [hwalk.unique hpassed]
    · exact fun hc => ⟨nodes[k], _, List.getElem?_eq_getElem hk, hwalk, hc⟩
  rw [hfind, List.findIdx?_eq_some_iff_getElem]
  simp only [List.length_map, List.getElem_map, List.contains_iff_mem]
  constructor
  · rintro ⟨hn, hc, hbefore⟩
    refine ⟨(hpasses n hn).mpr hc, fun k hk => Nat.not_lt.mp fun hkn => ?_⟩
    exact hbefore k hkn ((hpasses k (hkn.trans hn)).mp hk)
  · rintro ⟨hn, hleast⟩
    have hlt : n < nodes.length := by
      obtain ⟨x, _, hx, -⟩ := hn
      exact (List.getElem?_eq_some_iff.mp hx).1
    refine ⟨hlt, (hpasses n hlt).mp hn, fun k hkn hk => ?_⟩
    exact Nat.not_le.mpr hkn (hleast ((hpasses k (hkn.trans hlt)).mpr hk))

lemma walksEnd_of_acyclic : WalksEnd parents where
  outward := fun _ hx => walk_outward ha hr hx
  depth := by
    intro c hc
    refine ⟨_, walk_outward ha hr fun d hd => hr c d hd, ?_⟩
    rw [depth, outward_some ha hr hc, List.length_cons]
  depth_nested := fun _ _ h => depth_eq_succ ha hr h
  first := fun _ hnodes => clusterKey_eq_iff ha hr hnodes

end Acyclic

/-- **Cutting cycles loses one link for each cycle, and makes walks outward end.**  Whatever
clusters are said to lie in: every cycle loses the link of its first cluster and all else
stays, so no cluster lies in itself, walks outward end, and each cluster is one level deeper
than what it lies in. -/
theorem breakCycles_mends_and_walks_end (parents : Array (Option Nat)) (hr : InRange parents) :
    Mends parents (breakCycles parents).1 ∧ WalksEnd (breakCycles parents).1 :=
  ⟨mends_breakCycles parents,
    walksEnd_of_acyclic (acyclic_breakCycles parents) (inRange_breakCycles hr)⟩

/-- A cluster in another one that is on a cycle of two. -/
theorem mends_a_cycle_entered_from_outside :
    let parents : Array (Option Nat) := #[some 1, some 2, some 1, some 0]
    InRange parents ∧ IsCycle (LiesIn parents) ([1, 2] : List Nat) ∧
      (breakCycles parents).1 = #[some 1, none, some 1, some 0] ∧
      Mends parents (breakCycles parents).1 ∧ WalksEnd (breakCycles parents).1 := by
  intro parents
  have hr : InRange parents := by
    intro c d h
    have hc : c < 4 := h.lt_size
    interval_cases c <;> cases h <;> decide
  have hcycle : IsCycle (LiesIn parents) ([1, 2] : List Nat) := by
    refine ⟨by simp, by simp, ?_⟩
    rw [Cycle.chain_coe_cons]
    simp [LiesIn, parents]
  exact ⟨hr, hcycle, by decide, breakCycles_mends_and_walks_end parents hr⟩

end Drafting.Graph.Clusters
