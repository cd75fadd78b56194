import Mathlib
import Drafting.Proofs.Graph.Ordering
import Drafting.Proofs.Graph.SumTree
import Drafting.Scalar.Exact

/-!
What the number of crossings is.

* `Layering.Stepwise`: every segment runs from a node to one of the next rank; `Layering.Proper`:
  and every node lies on one of the ranks.
* `Layering.getD_adjacency`: the neighbours of a node are the other ends of its segments.
* `Layers.position`: where a node is in the layer of its rank.
* `Layers.Crosses`, `Layers.Opposed`: segments whose ends are in opposite orders.
* `Layers.between`: the crossings between a rank and the next one;
  `Layers.Places.rankCrossings_successors` and `Layers.Places.rankCrossings_predecessors` count them
  from either side.
* `Layers.crossings_counts_opposed_segments`: the crossings are the pairs of opposed segments.
-/

namespace Drafting.Graph

open scoped List

/-! ### Neighbours -/

namespace Layering

/-- Every segment runs from a node to one of the next rank. -/
def Stepwise {α : Type} (g : Layering α) : Prop :=
  ∀ e ∈ g.segments, e.1 < g.nodes.size ∧ e.2 < g.nodes.size ∧
    Layers.rankOf g e.2 = Layers.rankOf g e.1 + 1

instance {α : Type} (g : Layering α) : Decidable g.Stepwise :=
  inferInstanceAs (Decidable (∀ _ ∈ g.segments, _))

/-- Besides, every node lies on one of the ranks. -/
structure Proper {α : Type} (g : Layering α) : Prop where
  rank_lt : ∀ v < g.nodes.size, Layers.rankOf g v < g.rankCount
  stepwise : g.Stepwise

lemma size_adjacency (count : Nat) (pairs : List (Nat × Nat)) :
    (adjacency count pairs).size = count := by
  rw [adjacency, size_foldl fun _ _ => Array.size_modify, Array.size_replicate]

lemma adjacency_cons (count : Nat) (e : Nat × Nat) (pairs : List (Nat × Nat)) :
    adjacency count (e :: pairs) = (adjacency count pairs).modify e.1 (e.2 :: ·) := by
  rw [adjacency, List.reverse_cons, List.foldl_append]
  rfl

/-- The neighbours of a node are the other ends of its segments. -/
lemma getD_adjacency {count v : Nat} (hv : v < count) (pairs : List (Nat × Nat)) :
    (adjacency count pairs).getD v [] = (pairs.filter (·.1 = v)).map Prod.snd := by
  induction pairs with
  | nil => simp [adjacency, Array.getD_eq_getD_getElem?, hv]
  | cons e pairs ih =>
      rw [adjacency_cons, List.filter_cons]
      by_cases he : e.1 = v
      · rw [he, getD_modify_of_lt ((size_adjacency count pairs).symm ▸ hv), if_pos rfl, ih,
          if_pos (by simp), List.map_cons]
      · rw [if_neg (by simpa using he), ← ih, Array.getD_eq_getD_getElem?, Array.getElem?_modify,
          if_neg he, Array.getD_eq_getD_getElem?]

end Layering

namespace Layers

variable {α : Type} {g : Layering α} {layers : Layers}

/-- The position of a node in the layer of its rank. -/
def position (g : Layering α) (layers : Layers) (v : Nat) : Nat :=
  (layers.getD (rankOf g v) []).idxOf v

lemma Places.mem_layer (h : Places g layers) {v : Nat} (hv : v < g.nodes.size) :
    v ∈ layers.getD (rankOf g v) [] := by
  have hr := h.rank_lt v hv
  rw [List.getD_eq_getElem _ _ hr]
  exact (h.mem _ _ (List.getElem?_eq_getElem hr) v).mpr ⟨hv, rfl⟩

/-- The positions that are entered are those of the nodes. -/
lemma Places.getD_positions (h : Places g layers) {v : Nat} (hv : v < g.nodes.size) :
    (positions g.nodes.size layers).getD v 0 = position g layers v := by
  have hr := h.rank_lt v hv
  have hmem := h.mem_layer hv
  rw [List.getD_eq_getElem _ _ hr] at hmem
  have hlt : ∀ layer ∈ layers, ∀ w ∈ layer, w < (Array.replicate g.nodes.size 0).size := by
    intro layer hlayer w hw
    rw [Array.size_replicate]
    exact h.lt_of_mem hlayer hw
  have hmap := map_getD_foldl_enterPositions h.pairwise_disjoint h.nodup hlt (List.getElem_mem hr)
  have hi := List.idxOf_lt_length_iff.mpr hmem
  have hget := List.getElem_of_eq hmap (by simpa using hi)
  rw [List.getElem_map, List.getElem_idxOf, List.getElem_range] at hget
  rw [position, List.getD_eq_getElem _ _ hr]
  exact hget

/-! ### Segments that cross -/

/-- Of two segments, one is further left at its first end and the other at its second end. -/
def Crosses (place : Nat → Nat) (e f : Nat × Nat) : Prop :=
  place e.1 < place f.1 ∧ place f.2 < place e.2 ∨ place f.1 < place e.1 ∧ place e.2 < place f.2

instance (place : Nat → Nat) : DecidableRel (Crosses place) := fun _ _ =>
  inferInstanceAs (Decidable (_ ∨ _))

lemma crosses_comm {place : Nat → Nat} {e f : Nat × Nat} : Crosses place e f ↔ Crosses place f e :=
  or_comm

lemma crosses_swap {place : Nat → Nat} {e f : Nat × Nat} :
    Crosses place e.swap f.swap ↔ Crosses place e f := by
  simp only [Crosses, Prod.fst_swap, Prod.snd_swap]
  tauto

/-- The crossings of the segments from a layer are those of the segments of any two of its nodes. -/
lemma countPairs_crosses {place : Nat → Nat} {layer : List Nat}
    (hlayer : layer.Pairwise fun v w => place v < place w) {segments : List (Nat × Nat)}
    (hsegments : ∀ e ∈ segments, e.1 ∈ layer) :
    countPairs (Crosses place) segments = sumPairs (fun v w =>
      sumBetween (fun x y => if y < x then 1 else 0)
        (((segments.filter (·.1 = v)).map Prod.snd).map place)
        (((segments.filter (·.1 = w)).map Prod.snd).map place)) layer := by
  have hnodup : layer.Nodup := hlayer.imp fun h heq => (heq ▸ h).false
  have hwithin : ∀ v, countPairs (Crosses place) (segments.filter (·.1 = v)) = 0 := by
    intro v
    refine sumPairs_eq_zero (List.pairwise_of_forall_mem_list fun e he f hf => if_neg ?_)
    have he : e.1 = v := by simpa using (List.mem_filter.mp he).2
    have hf : f.1 = v := by simpa using (List.mem_filter.mp hf).2
    rw [Crosses, he, hf]
    simp
  rw [countPairs_groups (fun _ _ => crosses_comm) hnodup hsegments]
  simp only [hwithin, List.map_const', List.sum_replicate, smul_zero, Nat.zero_add]
  refine sumPairs_congr (hlayer.imp fun {v w} hvw => ?_)
  rw [sumBetween_map, sumBetween_map]
  refine sumBetween_congr fun e he f hf => ?_
  have hv : e.1 = v := by simpa using (List.mem_filter.mp he).2
  have hw : f.1 = w := by simpa using (List.mem_filter.mp hf).2
  refine if_congr ?_ rfl rfl
  rw [Crosses, hv, hw]
  exact ⟨fun h => h.elim And.right fun h => absurd h.1 hvw.asymm, fun h => Or.inl ⟨hvw, h⟩⟩

/-- The crossings counted for the pairs of nodes of a layer are those of the
segments that begin there. -/
lemma rankCrossings_eq {neighbours : Array (List Nat)} {positions : Array Nat} {place : Nat → Nat}
    {layer : List Nat} {segments : List (Nat × Nat)}
    (hlayer : layer.Pairwise fun v w => place v < place w)
    (hsegments : ∀ e ∈ segments, e.1 ∈ layer)
    (hends : ∀ v ∈ layer, (neighbours.getD v []).map (positions.getD · 0) =
      ((segments.filter (·.1 = v)).map Prod.snd).map place) :
    rankCrossings neighbours positions layer = countPairs (Crosses place) segments := by
  rw [countPairs_crosses hlayer hsegments, rankCrossings]
  refine sumPairs_congr (List.pairwise_of_forall_mem_list fun v hv w hw => ?_)
  rw [pairCrossings_eq, hends v hv, hends w hw]

/-- The crossings between a rank and the next one. -/
def between (g : Layering α) (layers : Layers) (r : Nat) : Nat :=
  countPairs (Crosses (position g layers)) (g.segments.filter (rankOf g ·.1 = r))

section Ranks

variable {r : Nat} {layer : List Nat} {ps : Array Nat}

lemma Places.position_eq (h : Places g layers) (hlayer : layers[r]? = some layer) {v : Nat}
    (hv : v ∈ layer) : position g layers v = layer.idxOf v := by
  rw [position, ((h.mem r layer hlayer v).mp hv).2, List.getD_eq_getElem?_getD, hlayer,
    Option.getD_some]

lemma Places.pairwise_position (h : Places g layers) (hlayer : layers[r]? = some layer) :
    layer.Pairwise fun v w => position g layers v < position g layers w := by
  have hnodup := h.nodup layer (List.mem_of_getElem? hlayer)
  refine List.pairwise_iff_getElem.mpr fun i j hi hj hij => ?_
  rwa [h.position_eq hlayer (List.getElem_mem hi), h.position_eq hlayer (List.getElem_mem hj),
    hnodup.idxOf_getElem, hnodup.idxOf_getElem]

/-- The crossings of segments are counted at the nodes of a rank that they begin at. -/
lemma Places.rankCrossings_adjacency (h : Places g layers) (hlayer : layers[r]? = some layer)
    {segments : List (Nat × Nat)} (hsegments : ∀ e ∈ segments, e.1 < g.nodes.size)
    (hps : ∀ e ∈ segments, rankOf g e.1 = r → ps.getD e.2 0 = position g layers e.2) :
    rankCrossings (Layering.adjacency g.nodes.size segments) ps layer =
      countPairs (Crosses (position g layers)) (segments.filter (rankOf g ·.1 = r)) := by
  refine rankCrossings_eq (h.pairwise_position hlayer) (fun e he => ?_) fun v hv => ?_
  · obtain ⟨he, hr⟩ := List.mem_filter.mp he
    exact (h.mem r layer hlayer e.1).mpr ⟨hsegments e he, of_decide_eq_true hr⟩
  · obtain ⟨hv, hrank⟩ := (h.mem r layer hlayer v).mp hv
    have hfilter : (segments.filter (rankOf g ·.1 = r)).filter (·.1 = v) =
        segments.filter (·.1 = v) := by
      rw [List.filter_filter]
      refine List.filter_congr fun e _ => ?_
      rw [← Bool.decide_and, decide_eq_decide]
      exact ⟨And.left, fun he => ⟨he, he ▸ hrank⟩⟩
    rw [Layering.getD_adjacency hv, hfilter, List.map_map, List.map_map]
    refine List.map_congr_left fun e he => ?_
    obtain ⟨he, hev⟩ := List.mem_filter.mp he
    exact hps e he (of_decide_eq_true hev ▸ hrank)

/-- The crossings below a rank, counted from its own nodes. -/
lemma Places.rankCrossings_successors (hg : g.Stepwise) (h : Places g layers)
    (hlayer : layers[r]? = some layer)
    (hps : ∀ u < g.nodes.size, rankOf g u = r + 1 → ps.getD u 0 = position g layers u) :
    rankCrossings g.successors ps layer = between g layers r := by
  refine h.rankCrossings_adjacency hlayer (fun e he => (hg e he).1) fun e he hr => ?_
  obtain ⟨-, hsize, hnext⟩ := hg e he
  exact hps e.2 hsize (hnext.trans (by rw [hr]))

/-- The crossings below a rank, counted from the nodes of the next one. -/
lemma Places.rankCrossings_predecessors (hg : g.Stepwise) (h : Places g layers)
    (hlayer : layers[r + 1]? = some layer)
    (hps : ∀ u < g.nodes.size, rankOf g u = r → ps.getD u 0 = position g layers u) :
    rankCrossings g.predecessors ps layer = between g layers r := by
  have hturned : (g.segments.map Prod.swap).filter (rankOf g ·.1 = r + 1) =
      (g.segments.filter (rankOf g ·.1 = r)).map Prod.swap := by
    rw [List.filter_map]
    congr 1
    refine List.filter_congr fun e he => ?_
    rw [Function.comp_apply, Prod.fst_swap, (hg e he).2.2, decide_eq_decide]
    omega
  calc rankCrossings g.predecessors ps layer
      = countPairs (Crosses (position g layers))
          ((g.segments.map Prod.swap).filter (rankOf g ·.1 = r + 1)) := by
        refine h.rankCrossings_adjacency hlayer ?_ ?_
        · refine List.forall_mem_map.mpr fun e he => (hg e he).2.1
        · refine List.forall_mem_map.mpr fun e he hr => ?_
          obtain ⟨hsize, -, hnext⟩ := hg e he
          have hr : rankOf g e.2 = r + 1 := hr
          exact hps e.1 hsize (by omega)
    _ = between g layers r := by
        rw [hturned, countPairs, sumPairs_map]
        simp only [crosses_swap]
        rfl

end Ranks

/-! ### All ranks -/

/-- Two segments between the same ranks whose upper ends are in the opposite
order of their lower ends. -/
def Opposed (g : Layering α) (layers : Layers) (e f : Nat × Nat) : Prop :=
  rankOf g e.1 = rankOf g f.1 ∧ Crosses (position g layers) e f

instance (g : Layering α) (layers : Layers) : DecidableRel (Opposed g layers) := fun _ _ =>
  inferInstanceAs (Decidable (_ ∧ _))

/-- Segments that cross do so between two ranks. -/
lemma countPairs_opposed {n : Nat} (h : ∀ e ∈ g.segments, rankOf g e.1 < n) :
    countPairs (Opposed g layers) g.segments = ∑ r ∈ Finset.range n, between g layers r := by
  have hcomm : ∀ e f, Opposed g layers e f ↔ Opposed g layers f e :=
    fun _ _ => and_congr eq_comm crosses_comm
  have hwithin : ∀ r, countPairs (Opposed g layers) (g.segments.filter (rankOf g ·.1 = r)) =
      between g layers r := by
    intro r
    refine sumPairs_congr (List.pairwise_of_forall_mem_list fun e he f hf => ?_)
    have he := of_decide_eq_true (List.mem_filter.mp he).2
    have hf := of_decide_eq_true (List.mem_filter.mp hf).2
    exact if_congr (and_iff_right (he.trans hf.symm)) rfl rfl
  have hapart : sumPairs (fun r t => sumBetween (fun e f => if Opposed g layers e f then 1 else 0)
      (g.segments.filter (rankOf g ·.1 = r)) (g.segments.filter (rankOf g ·.1 = t)))
      (List.range n) = 0 := by
    refine sumPairs_eq_zero (List.nodup_range.imp fun {r t} hne => ?_)
    refine sumBetween_eq_zero fun e he f hf => if_neg fun h => hne ?_
    exact (of_decide_eq_true (List.mem_filter.mp he).2).symm.trans
      (h.1.trans (of_decide_eq_true (List.mem_filter.mp hf).2))
  rw [countPairs_groups hcomm List.nodup_range fun e he => List.mem_range.mpr (h e he), hapart]
  simp only [hwithin]
  rfl

/-- As `crossingsBetween`, but no entry outside of a tree may be used. -/
def crossingsBetween? (successors : Array (List Nat)) (positions : Array Nat) : Layers → Option Nat
  | north :: south :: rest =>
    (layerCrossings? successors positions north south.length).bind fun count =>
      (crossingsBetween? successors positions (south :: rest)).map (count + ·)
  | _ => some 0

/-- As `crossings`, but no entry outside of a tree may be used. -/
def crossings? (successors : Array (List Nat)) (layers : Layers) : Option Nat :=
  crossingsBetween? successors (positions successors.size layers) layers

lemma crossingsBetween_eq_of_crossingsBetween? {successors : Array (List Nat)}
    {positions : Array Nat} {layers : Layers} {count : Nat}
    (h : crossingsBetween? successors positions layers = some count) :
    crossingsBetween successors positions layers = count := by
  induction layers generalizing count with
  | nil => exact Option.some.inj h
  | cons north layers ih =>
      cases layers with
      | nil => exact Option.some.inj h
      | cons south rest =>
          obtain ⟨first, hfirst, h⟩ := Option.bind_eq_some_iff.mp h
          obtain ⟨others, hothers, rfl⟩ := Option.map_eq_some_iff.mp h
          rw [crossingsBetween, layerCrossings_eq_of_layerCrossings? hfirst, ih hothers]

/-- The crossings are counted rank by rank where segments end in the next layer. -/
lemma crossingsBetween?_eq {successors : Array (List Nat)} {positions : Array Nat} {layers : Layers}
    (hends : layers.IsChain fun north south =>
      ∀ v ∈ north, ∀ w ∈ successors.getD v [], positions.getD w 0 < south.length)
    (hlast : ∀ north ∈ layers.getLast?, ∀ v ∈ north, successors.getD v [] = []) :
    crossingsBetween? successors positions layers =
      some (layers.map (rankCrossings successors positions)).sum := by
  induction layers with
  | nil => rfl
  | cons north layers ih =>
      cases layers with
      | nil =>
          have hnone : rankCrossings successors positions north = 0 := by
            refine sumPairs_eq_zero (List.pairwise_of_forall_mem_list fun v hv w _ => ?_)
            rw [hlast north rfl v hv]
            rfl
          rw [List.map_singleton, List.sum_singleton, hnone]
          rfl
      | cons south rest =>
          rw [List.isChain_cons_cons] at hends
          rw [List.getLast?_cons_cons] at hlast
          rw [crossingsBetween?, layerCrossings?_eq hends.1, Option.bind_some, ih hends.2 hlast]
          rfl

lemma mem_successors (hg : g.Stepwise) {v w : Nat} (hv : v < g.nodes.size)
    (hw : w ∈ g.successors.getD v []) : w < g.nodes.size ∧ rankOf g w = rankOf g v + 1 := by
  rw [Layering.successors, Layering.getD_adjacency hv] at hw
  obtain ⟨e, he, rfl⟩ := List.mem_map.mp hw
  obtain ⟨he, hev⟩ := List.mem_filter.mp he
  obtain ⟨-, hsize, hnext⟩ := hg e he
  exact ⟨hsize, hnext.trans (by rw [of_decide_eq_true hev])⟩

/-- **The crossings of layers are those between each rank and the next one**, and no entry
outside of a tree is used. -/
lemma Places.crossings?_eq (hg : g.Stepwise) (h : Places g layers) :
    crossings? g.successors layers =
      some (∑ r ∈ Finset.range layers.length, between g layers r) := by
  have hsize : g.successors.size = g.nodes.size := Layering.size_adjacency _ _
  have hlayers : layers.map (rankCrossings g.successors (positions g.nodes.size layers)) =
      (List.range layers.length).map (between g layers) := by
    refine List.ext_getElem (by simp) fun r hr _ => ?_
    rw [List.length_map] at hr
    rw [List.getElem_map, List.getElem_map, List.getElem_range]
    exact h.rankCrossings_successors hg (List.getElem?_eq_getElem hr) fun u hu _ =>
      h.getD_positions hu
  rw [crossings?, hsize, crossingsBetween?_eq, hlayers]
  · rfl
  case hends =>
    refine List.isChain_iff_getElem.mpr fun r hr v hv w hw => ?_
    obtain ⟨hv, hrank⟩ := (h.mem r _ (List.getElem?_eq_getElem (by omega)) v).mp hv
    obtain ⟨hw, hnext⟩ := mem_successors hg hv hw
    have hmem := (h.mem (r + 1) _ (List.getElem?_eq_getElem hr) w).mpr ⟨hw, by omega⟩
    rw [h.getD_positions hw, h.position_eq (List.getElem?_eq_getElem hr) hmem]
    exact List.idxOf_lt_length_iff.mpr hmem
  case hlast =>
    intro north hnorth v hv
    rw [List.getLast?_eq_getElem?] at hnorth
    obtain ⟨hv, hrank⟩ := (h.mem _ north hnorth v).mp hv
    -- a successor would lie below the last layer
    refine List.eq_nil_iff_forall_not_mem.mpr fun w hw => ?_
    obtain ⟨hw, hnext⟩ := mem_successors hg hv hw
    have := h.rank_lt w hw
    have := (List.getElem?_eq_some_iff.mp hnorth).1
    omega

/-- **Crossings are the pairs of segments between the same two ranks whose upper ends and lower ends
are in opposite orders**, and the tree that counts them is used within its bounds. -/
theorem crossings_counts_opposed_segments (g : Layering α) (hg : g.Stepwise) {layers : Layers}
    (h : Places g layers) :
    crossings? g.successors layers = some (crossings g.successors layers) ∧
      crossings g.successors layers = countPairs (Opposed g layers) g.segments := by
  have hcount := h.crossings?_eq hg
  have hcrossings : crossings g.successors layers = _ :=
    crossingsBetween_eq_of_crossingsBetween? hcount
  rw [hcrossings, countPairs_opposed fun e he => h.rank_lt _ (hg e he).1]
  exact ⟨hcount, rfl⟩

/-- A double segment crosses two others.  Its two segments do not cross each other, nor a third one
that ends where they end. -/
theorem crossings_of_a_double_segment :
    let g : Layering Rat :=
      Layering.ofEdges 10 0
        [⟨0, ⟨5, 5⟩, 10⟩, ⟨0, ⟨5, 5⟩, 10⟩, ⟨1, ⟨5, 5⟩, 10⟩, ⟨1, ⟨5, 5⟩, 10⟩, ⟨1, ⟨5, 5⟩, 10⟩]
        [(0, 2), (0, 3), (0, 4), (1, 2), (1, 2)]
    g.Stepwise ∧ Places g [[0, 1], [2, 3, 4]] ∧
      crossings? g.successors [[0, 1], [2, 3, 4]] = some 4 ∧
      countPairs (Opposed g [[0, 1], [2, 3, 4]]) g.segments = 4 := by
  intro g
  have hg : g.Stepwise := by decide +kernel
  have hinitial : initial g = [[0, 1], [2, 3, 4]] := by cbv
  have hplaces : Places g [[0, 1], [2, 3, 4]] :=
    hinitial ▸ (fits_initial g).places (by decide +kernel)
  have hcrossings : crossings g.successors [[0, 1], [2, 3, 4]] = 4 := by cbv
  obtain ⟨hbounds, hcount⟩ := crossings_counts_opposed_segments g hg hplaces
  rw [hcrossings] at hbounds hcount
  exact ⟨hg, hplaces, hbounds, hcount.symm⟩

end Layers

end Drafting.Graph
