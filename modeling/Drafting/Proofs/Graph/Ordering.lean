import Mathlib
import Drafting.Proofs.Arrays
import Drafting.Proofs.Graph.Layering

/-!
The order of nodes within ranks.

Sweeps and exchanges only rearrange the nodes of each rank.

* `Layers.ByRank`, `Layers.Places`, `Layers.Fits`: every node is once in the layer of its rank.
* `Layers.map_getD_foldl_enterPositions`: the positions that are entered for layers.
* `Layers.fits_initial`: the order of the depth-first walk.
* `Layers.Rearranges`: rank by rank the same nodes; every step of the improvement is one.
* `Layers.fits_minimize`: the order that is kept.
-/

namespace Drafting.Graph.Layers

variable {α : Type}

/-- Each layer holds the nodes of its rank, once.  How many layers there are is left open. -/
structure ByRank (g : Layering α) (layers : Layers) : Prop where
  mem : ∀ r layer, layers[r]? = some layer → ∀ v, v ∈ layer ↔ v < g.nodes.size ∧ rankOf g v = r
  nodup : ∀ layer ∈ layers, layer.Nodup

/-- Every node is once in the layer of its rank. -/
structure Places (g : Layering α) (layers : Layers) : Prop extends ByRank g layers where
  rank_lt : ∀ v < g.nodes.size, rankOf g v < layers.length

/-- There are as many layers as ranks, and each holds the nodes of its rank. -/
structure Fits (g : Layering α) (layers : Layers) : Prop extends ByRank g layers where
  length : layers.length = g.rankCount

/-- Layers that fit place every node, if there are as many ranks as nodes need. -/
lemma Fits.places {g : Layering α} {layers : Layers} (h : Fits g layers)
    (hrank : ∀ v < g.nodes.size, rankOf g v < g.rankCount) : Places g layers :=
  ⟨h.toByRank, fun v hv => h.length ▸ hrank v hv⟩

/-- Two ranks are the same or have no node in common. -/
lemma ByRank.eq_of_mem {g : Layering α} {layers : Layers} (hf : ByRank g layers)
    {layer layer' : List Nat} (h : layer ∈ layers) (h' : layer' ∈ layers) {v : Nat} (hv : v ∈ layer)
    (hv' : v ∈ layer') : layer = layer' := by
  obtain ⟨r, hr⟩ := List.mem_iff_getElem?.mp h
  obtain ⟨r', hr'⟩ := List.mem_iff_getElem?.mp h'
  have hrank := ((hf.mem r layer hr v).mp hv).2
  have hrank' := ((hf.mem r' layer' hr' v).mp hv').2
  rw [← hrank, hrank'] at hr
  exact Option.some.inj (hr.symm.trans hr')

lemma ByRank.lt_of_mem {g : Layering α} {layers : Layers} (hf : ByRank g layers) {layer : List Nat}
    (h : layer ∈ layers) {v : Nat} (hv : v ∈ layer) :
    v < g.nodes.size := by
  obtain ⟨r, hr⟩ := List.mem_iff_getElem?.mp h
  exact ((hf.mem r layer hr v).mp hv).1

/-! ### Positions -/

lemma getD_enterPositions_of_notMem {layer : List Nat} {v : Nat} (hv : v ∉ layer)
    (positions : Array Nat) (index : Nat) :
    (enterPositions positions index layer).getD v 0 = positions.getD v 0 := by
  induction layer generalizing positions index with
  | nil => rfl
  | cons w layer ih =>
      rw [List.mem_cons, not_or] at hv
      rw [enterPositions, ih hv.2, getD_setIfInBounds_ne (Ne.symm hv.1)]

lemma size_enterPositions (positions : Array Nat) (index : Nat) (layer : List Nat) :
    (enterPositions positions index layer).size = positions.size := by
  induction layer generalizing positions index with
  | nil => rfl
  | cons w layer ih => rw [enterPositions, ih, Array.size_setIfInBounds]

/-- The nodes of a layer get their positions in it. -/
lemma map_getD_enterPositions {positions : Array Nat} {layer : List Nat} (hnodup : layer.Nodup)
    (hlt : ∀ v ∈ layer, v < positions.size) (index : Nat) :
    layer.map ((enterPositions positions index layer).getD · 0) =
      List.range' index layer.length := by
  induction layer generalizing positions index with
  | nil => rfl
  | cons v layer ih =>
      rw [List.nodup_cons] at hnodup
      rw [List.forall_mem_cons] at hlt
      rw [enterPositions, List.map_cons, List.length_cons, List.range'_succ,
        ih hnodup.2 (by simpa using hlt.2), getD_enterPositions_of_notMem hnodup.1,
        getD_setIfInBounds_self hlt.1]

lemma getD_foldl_enterPositions_of_notMem {layers : Layers} {v : Nat}
    (hv : ∀ layer ∈ layers, v ∉ layer) (positions : Array Nat) :
    (layers.foldl (fun ps layer => enterPositions ps 0 layer) positions).getD v 0 =
      positions.getD v 0 := by
  induction layers generalizing positions with
  | nil => rfl
  | cons layer layers ih =>
      rw [List.forall_mem_cons] at hv
      rw [List.foldl_cons, ih hv.2, getD_enterPositions_of_notMem hv.1]

/-- Layers are entered one after the other; each keeps its positions. -/
lemma map_getD_foldl_enterPositions {layers : Layers} (hdisjoint : layers.Pairwise List.Disjoint)
    (hnodup : ∀ layer ∈ layers, layer.Nodup) {positions : Array Nat}
    (hlt : ∀ layer ∈ layers, ∀ v ∈ layer, v < positions.size) {layer : List Nat}
    (h : layer ∈ layers) :
    layer.map ((layers.foldl (fun ps layer => enterPositions ps 0 layer) positions).getD · 0) =
      List.range layer.length := by
  induction layers generalizing positions with
  | nil => simp at h
  | cons first layers ih =>
      rw [List.pairwise_cons] at hdisjoint
      rw [List.forall_mem_cons] at hnodup hlt
      rcases List.mem_cons.mp h with rfl | h
      · rw [List.range_eq_range', ← map_getD_enterPositions hnodup.1 hlt.1]
        exact List.map_congr_left fun v hv => getD_foldl_enterPositions_of_notMem
          (fun other hother hmem => hdisjoint.1 other hother hv hmem) _
      · exact ih hdisjoint.2 hnodup.2 (by simpa only [size_enterPositions] using hlt.2) h

/-- No node is in two layers. -/
lemma ByRank.pairwise_disjoint {g : Layering α} {layers : Layers} (h : ByRank g layers) :
    layers.Pairwise List.Disjoint := by
  rw [List.pairwise_iff_getElem]
  intro i j hi hj hij v hv hv'
  have hrank := ((h.mem i _ (List.getElem?_eq_getElem hi) v).mp hv).2
  have hrank' := ((h.mem j _ (List.getElem?_eq_getElem hj) v).mp hv').2
  omega

/-! ### The depth-first walk -/

/-- The nodes that a walk has met are those that are marked. -/
structure Walked (marks : Array Bool) (visited : List Nat) : Prop where
  nodup : visited.Nodup
  mem : ∀ v, v ∈ visited ↔ marks[v]? = some true

lemma Walked.mark {marks : Array Bool} {visited : List Nat} (h : Walked marks visited) {v : Nat}
    (hv : marks[v]? = some false) : Walked (marks.setIfInBounds v true) (v :: visited) := by
  have hlt : v < marks.size := (Array.getElem?_eq_some_iff.mp hv).1
  refine ⟨List.nodup_cons.mpr ⟨fun hmem => ?_, h.nodup⟩, fun w => ?_⟩
  · rw [h.mem, hv] at hmem
    simp at hmem
  · rw [List.mem_cons, h.mem, Array.getElem?_setIfInBounds]
    by_cases hvw : v = w
    · simp [hvw ▸ hlt, hvw]
    · simp [hvw, Ne.symm hvw]

/-- A walk meets every node of its stack, and none twice. -/
lemma Walked.walk (successors : Array (List Nat)) {marks : Array Bool} {visited : List Nat}
    (stack : List Nat) (h : Walked marks visited) :
    Walked (Layers.walk successors marks visited stack).1
      (Layers.walk successors marks visited stack).2 ∧
      (Layers.walk successors marks visited stack).1.size = marks.size ∧
      visited ⊆ (Layers.walk successors marks visited stack).2 ∧
      ∀ v ∈ stack, v < marks.size → v ∈ (Layers.walk successors marks visited stack).2 := by
  fun_induction Layers.walk successors marks visited stack with
  | case1 marks visited => exact ⟨h, rfl, List.Subset.refl _, by simp⟩
  | case2 marks visited v stack hv ih =>
      obtain ⟨hend, hsize, hsub, hall⟩ := ih (h.mark hv)
      rw [Array.size_setIfInBounds] at hsize hall
      refine ⟨hend, hsize, fun w hw => hsub (List.mem_cons_of_mem _ hw), fun w hw hlt => ?_⟩
      rcases List.mem_cons.mp hw with rfl | hw
      · exact hsub (by simp)
      · exact hall w (List.mem_append_right _ hw) hlt
  | case3 marks visited v stack hv ih =>
      obtain ⟨hend, hsize, hsub, hall⟩ := ih h
      refine ⟨hend, hsize, hsub, fun w hw hlt => ?_⟩
      rcases List.mem_cons.mp hw with rfl | hw
      · -- a node that is not unmarked has been met
        have hmarked : marks[w]? = some true := by
          rw [Array.getElem?_eq_getElem hlt] at hv ⊢
          simpa using hv
        exact hsub ((h.mem w).mpr hmarked)
      · exact hall w hw hlt

/-- The walk goes through every node. -/
lemma walkOrder_perm (g : Layering α) : (walkOrder g).Perm (List.range g.nodes.size) := by
  have hstart : Walked (Array.replicate g.nodes.size false) [] := by
    refine ⟨List.nodup_nil, fun v => ?_⟩
    rw [Array.getElem?_replicate]
    split <;> simp
  obtain ⟨hend, hsize, -, hall⟩ := hstart.walk g.successors (starts g)
  rw [Array.size_replicate] at hsize hall
  refine (List.reverse_perm _).trans
    ((List.perm_ext_iff_of_nodup hend.nodup List.nodup_range).mpr fun v => ?_)
  rw [List.mem_range]
  refine ⟨fun hv => ?_, fun hv => hall v ?_ hv⟩
  · rw [hend.mem] at hv
    rw [← hsize]
    exact (Array.getElem?_eq_some_iff.mp hv).1
  · exact List.mem_mergeSort.mpr (List.mem_range.mpr hv)

/-- Nodes sorted into ranks keep their order within each rank. -/
lemma getElem?_ofOrder (g : Layering α) (order : List Nat) {r : Nat} (hr : r < g.rankCount) :
    (ofOrder g order)[r]? = some (order.filter fun v => rankOf g v == r) := by
  rw [ofOrder, List.foldl_reverse, Array.getElem?_toList]
  induction order with
  | nil => simp [hr]
  | cons v order ih =>
      rw [List.foldr_cons, Array.getElem?_modify, ih]
      by_cases hv : rankOf g v = r
      · simp [hv]
      · simp [hv]

lemma length_ofOrder (g : Layering α) (order : List Nat) :
    (ofOrder g order).length = g.rankCount := by
  rw [ofOrder, List.foldl_reverse, Array.length_toList]
  induction order with
  | nil => simp
  | cons v order ih => rw [List.foldr_cons, Array.size_modify, ih]

/-- The order of the walk puts every node into its rank. -/
lemma fits_initial (g : Layering α) : Fits g (initial g) := by
  have hperm := walkOrder_perm g
  have hlayer : ∀ r layer, (initial g)[r]? = some layer →
      layer = (walkOrder g).filter fun v => rankOf g v == r := by
    intro r layer hlayer
    have hr : r < g.rankCount := by
      rw [← length_ofOrder g (walkOrder g)]
      exact (List.getElem?_eq_some_iff.mp hlayer).1
    rw [initial, getElem?_ofOrder g _ hr] at hlayer
    exact (Option.some.inj hlayer).symm
  refine ⟨⟨fun r layer h v => ?_, fun layer h => ?_⟩, length_ofOrder g _⟩
  · rw [hlayer r layer h, List.mem_filter, hperm.mem_iff, List.mem_range, beq_iff_eq]
  · obtain ⟨r, hr⟩ := List.mem_iff_getElem?.mp h
    rw [hlayer r layer hr]
    exact (hperm.nodup_iff.mpr List.nodup_range).filter _

/-! ### Rearrangements -/

/-- Rank by rank the same nodes. -/
def Rearranges (layers layers' : Layers) : Prop := List.Forall₂ List.Perm layers layers'

lemma Rearranges.refl (layers : Layers) : Rearranges layers layers :=
  List.forall₂_same.mpr fun _ _ => List.Perm.refl _

lemma Rearranges.trans {a b c : Layers} (h : Rearranges a b) (h' : Rearranges b c) :
    Rearranges a c := by
  induction h generalizing c with
  | nil => exact h'
  | cons hperm _ ih =>
      cases h' with
      | cons hperm' h' => exact List.Forall₂.cons (hperm.trans hperm') (ih h')

/-- Rearranged layers hold the nodes of the same ranks. -/
lemma ByRank.rearranges {g : Layering α} {layers layers' : Layers} (h : ByRank g layers)
    (hr : Rearranges layers layers') : ByRank g layers' := by
  have hperm : ∀ (r : Nat) (layer' : List Nat), layers'[r]? = some layer' →
      ∃ layer : List Nat, layers[r]? = some layer ∧ layer.Perm layer' := by
    intro r layer' hlayer'
    obtain ⟨hlt, rfl⟩ := List.getElem?_eq_some_iff.mp hlayer'
    have hlt' : r < layers.length := hr.length_eq ▸ hlt
    exact ⟨layers[r], List.getElem?_eq_getElem hlt', hr.get hlt' hlt⟩
  refine ⟨fun r layer' h' v => ?_, fun layer' h' => ?_⟩
  · obtain ⟨layer, hlayer, hp⟩ := hperm r layer' h'
    rw [← hp.mem_iff, h.mem r layer hlayer]
  · obtain ⟨r, hr'⟩ := List.mem_iff_getElem?.mp h'
    obtain ⟨layer, hlayer, hp⟩ := hperm r layer' hr'
    exact hp.nodup_iff.mp (h.nodup layer (List.mem_of_getElem? hlayer))

lemma Places.rearranges {g : Layering α} {layers layers' : Layers} (h : Places g layers)
    (hr : Rearranges layers layers') : Places g layers' :=
  ⟨h.toByRank.rearranges hr, fun v hv => hr.length_eq ▸ h.rank_lt v hv⟩

lemma Fits.rearranges {g : Layering α} {layers layers' : Layers} (h : Fits g layers)
    (hr : Rearranges layers layers') : Fits g layers' :=
  ⟨h.toByRank.rearranges hr, hr.length_eq ▸ h.length⟩

/-! ### Sweeps -/

section Sweeps

variable [Scalar α]

lemma sortLayer_perm (heuristic : Heuristic) (neighbours : Array (List Nat))
    (reference layer : List Nat) :
    (sortLayer α heuristic neighbours reference layer).Perm layer := by
  refine ((List.mergeSort_perm _ _).map _).trans (List.Perm.of_eq ?_)
  refine List.ext_getElem (by simp) fun i hi _ => ?_
  simp

lemma rearranges_sweepFrom (heuristic : Heuristic) (neighbours : Array (List Nat))
    (reference : List Nat) (layers : Layers) :
    Rearranges layers (sweepFrom α heuristic neighbours reference layers) := by
  induction layers generalizing reference with
  | nil => exact List.Forall₂.nil
  | cons layer layers ih =>
      exact List.Forall₂.cons (sortLayer_perm heuristic neighbours reference layer).symm (ih _)

lemma rearranges_sweepDown (heuristic : Heuristic) (neighbours : Array (List Nat))
    (layers : Layers) :
    Rearranges layers (sweepDown α heuristic neighbours layers) := by
  cases layers with
  | nil => exact List.Forall₂.nil
  | cons layer layers =>
      exact List.Forall₂.cons (List.Perm.refl _) (rearranges_sweepFrom heuristic neighbours _ _)

lemma rearranges_sweep (heuristic : Heuristic) (predecessors successors : Array (List Nat))
    (down : Bool) (layers : Layers) :
    Rearranges layers (sweep α heuristic predecessors successors down layers) := by
  cases down with
  | true => exact rearranges_sweepDown heuristic predecessors layers
  | false =>
      have hup : Rearranges layers.reverse (sweepDown α heuristic successors layers.reverse) :=
        rearranges_sweepDown heuristic successors layers.reverse
      refine List.forall₂_reverse_iff.mp ?_
      rw [sweep, if_neg Bool.false_ne_true, List.reverse_reverse]
      exact hup

end Sweeps

/-! ### Exchanges -/

lemma bubble_perm (better : Nat → Nat → Bool) (v : Nat) (layer : List Nat) :
    (v :: layer).Perm (bubble better v layer).1 := by
  induction layer generalizing v with
  | nil => exact List.Perm.refl _
  | cons w layer ih =>
      rw [bubble]
      split
      · exact (List.Perm.swap w v layer).trans ((ih v).cons w)
      · exact (ih w).cons v

lemma rearranges_exchange? {better : Nat → Nat → Bool} {layers improved : Layers}
    (h : exchange? better layers = some improved) : Rearranges layers improved := by
  induction layers generalizing improved with
  | nil => simp [exchange?] at h
  | cons layer layers ih =>
      cases layer with
      | nil =>
          obtain ⟨rest, hrest, rfl⟩ := Option.map_eq_some_iff.mp h
          exact List.Forall₂.cons (List.Perm.refl _) (ih hrest)
      | cons v layer =>
          simp only [exchange?] at h
          split at h
          · obtain rfl := Option.some.inj h
            exact List.Forall₂.cons (bubble_perm better v layer) (Rearranges.refl layers)
          · obtain ⟨rest, hrest, rfl⟩ := Option.map_eq_some_iff.mp h
            exact List.Forall₂.cons (List.Perm.refl _) (ih hrest)

lemma rearranges_transposeFor (predecessors successors : Array (List Nat)) (rounds : Nat)
    (layers : Layers) :
    Rearranges layers (transposeFor predecessors successors rounds layers) := by
  induction rounds generalizing layers with
  | zero => exact Rearranges.refl layers
  | succ rounds ih =>
      rw [transposeFor]
      split
      · exact Rearranges.refl layers
      · next improved himproved => exact (rearranges_exchange? himproved).trans (ih improved)

/-! ### The order that is kept -/

section Kept

variable [Scalar α]

lemma rearranges_improve (heuristic : Heuristic) (predecessors successors : Array (List Nat))
    {first : Layers} (passes : Nat) (down : Bool) {layers best : Layers} (fewest : Nat)
    (hlayers : Rearranges first layers) (hbest : Rearranges first best) :
    Rearranges first (improve α heuristic predecessors successors passes down layers best
      fewest) := by
  induction passes generalizing down layers best fewest with
  | zero => exact hbest
  | succ passes ih =>
      have hnext : Rearranges first (transpose predecessors successors
          (sweep α heuristic predecessors successors down layers)) :=
        (hlayers.trans (rearranges_sweep heuristic predecessors successors down layers)).trans
          (rearranges_transposeFor predecessors successors _ _)
      rw [improve]
      split
      · exact hbest
      · simp only
        split
        · exact ih _ _ hnext hnext
        · exact ih _ _ hnext hbest

/-- **No node is lost**: in the order that is kept every node is once in its own rank. -/
lemma fits_minimize (g : Layering α) (passes : Nat) (heuristic : Heuristic) :
    Fits g (minimize g passes heuristic) :=
  (fits_initial g).rearranges
    (rearranges_improve heuristic _ _ passes true _ (Rearranges.refl _) (Rearranges.refl _))

end Kept

end Drafting.Graph.Layers
