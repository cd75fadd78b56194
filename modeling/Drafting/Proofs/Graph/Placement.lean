import Mathlib
import Drafting.Proofs.Graph.Spacing
import Drafting.Proofs.Scalar.Lengths

/-!
Coordinates of the nodes of a layered graph.

* `Layering.Nonneg`: nodes reach to both sides, and are not lower than nothing.
* `Placement.pairwise_topsFrom`: ranks do not run into each other.
* `Placement.beside`: of two nodes of a rank, one is far enough to the right of the other.
-/

namespace Drafting.Graph

/-- Nodes reach to both sides, and are not lower than nothing. -/
structure Layering.Nonneg (g : Layering Rat) : Prop where
  before : ∀ n ∈ g.nodes, 0 ≤ n.extent.before
  after : ∀ n ∈ g.nodes, 0 ≤ n.extent.after
  height : ∀ n ∈ g.nodes, 0 ≤ n.height

namespace Placement

variable {g : Layering Rat} {layers : Layers} {spacing : Rat} {gaps : Array Rat}

/-- How high a node is. -/
def heightOf (g : Layering Rat) (v : Nat) : Rat := (g.nodes[v]?.map (·.height)).getD 0

/-! ### Along the ranks -/

lemma extentOf_nonneg (hg : g.Nonneg) (v : Nat) :
    0 ≤ (extentOf g v).before ∧ 0 ≤ (extentOf g v).after := by
  rw [extentOf]
  cases hv : g.nodes[v]? with
  | none => exact ⟨le_refl _, le_refl _⟩
  | some n =>
      have hmem := Array.mem_of_getElem? hv
      exact ⟨hg.before n hmem, hg.after n hmem⟩

/-- Nodes that keep their distances to their neighbours keep them to all nodes of the rank. -/
lemma pairwise_of_spacedAt (hg : g.Nonneg) (hspacing : 0 ≤ spacing) {xs : Array Rat}
    {layer : List Nat} (h : SpacedAt g spacing xs layer) :
    layer.Pairwise fun v w => xs.getD v 0 + separation spacing (extentOf g v) (extentOf g w) ≤
      xs.getD w 0 := by
  have hchain := (List.isChain_map _).mp h
  have htrans : Trans (fun v w => KeepsDistance spacing (xs.getD v 0, extentOf g v)
      (xs.getD w 0, extentOf g w))
      (fun v w => KeepsDistance spacing (xs.getD v 0, extentOf g v) (xs.getD w 0, extentOf g w))
      (fun v w => KeepsDistance spacing (xs.getD v 0, extentOf g v)
        (xs.getD w 0, extentOf g w)) := by
    refine ⟨fun {u v w} huv hvw => ?_⟩
    obtain ⟨hbefore, hafter⟩ := extentOf_nonneg hg v
    simp only [KeepsDistance, separation] at huv hvw ⊢
    linarith
  exact hchain.pairwise

/-! ### Across the ranks -/

lemma gapAfter_nonneg (hgaps : ∀ x ∈ gaps, 0 ≤ x) (rank : Nat) : 0 ≤ gapAfter gaps rank := by
  rw [gapAfter]
  cases hgap : gaps[rank]? with
  | some x => exact hgaps x (Array.mem_of_getElem? hgap)
  | none =>
      cases hback : gaps.back? with
      | none => exact le_refl _
      | some x => exact hgaps x (Array.mem_of_back? hback)

/-- Each rank begins after those before it end. -/
lemma pairwise_topsFrom (hgaps : ∀ x ∈ gaps, 0 ≤ x) {heights : List Rat}
    (hheights : ∀ x ∈ heights, 0 ≤ x) (rank : Nat) (cursor : Rat) :
    (∀ p ∈ (topsFrom gaps rank cursor heights).zip heights, cursor ≤ p.1) ∧
      ((topsFrom gaps rank cursor heights).zip heights).Pairwise fun p q => p.1 + p.2 ≤ q.1 := by
  induction heights generalizing rank cursor with
  | nil => exact ⟨by simp [topsFrom], by simp [topsFrom]⟩
  | cons height heights ih =>
      have hheight := hheights height (by simp)
      have hgap := gapAfter_nonneg hgaps rank
      obtain ⟨hle, hpairwise⟩ := ih (fun x hx => hheights x (by simp [hx])) (rank + 1)
        (cursor + (height + gapAfter gaps rank))
      rw [topsFrom, List.zip_cons_cons]
      refine ⟨fun p hp => ?_, List.pairwise_cons.mpr ⟨fun p hp => ?_, hpairwise⟩⟩
      · rcases List.mem_cons.mp hp with rfl | hp
        · exact le_refl _
        · have := hle p hp
          linarith
      · have := hle p hp
        simp only
        linarith

lemma length_topsFrom (rank : Nat) (cursor : Rat) (heights : List Rat) :
    (topsFrom gaps rank cursor heights).length = heights.length := by
  induction heights generalizing rank cursor with
  | nil => rfl
  | cons height heights ih => rw [topsFrom, List.length_cons, ih, List.length_cons]

/-- Where a rank begins. -/
def top (g : Layering Rat) (layers : Layers) (gaps : Array Rat) (r : Nat) : Rat :=
  (topsFrom gaps 0 0 (heights g layers)).getD r 0

/-- How high a rank is. -/
def rankHeight (g : Layering Rat) (layers : Layers) (r : Nat) : Rat := (heights g layers).getD r 0

lemma heights_nonneg (g : Layering Rat) (layers : Layers) : ∀ x ∈ heights g layers, 0 ≤ x := by
  intro x hx
  rw [heights, List.mem_map] at hx
  obtain ⟨layer, -, rfl⟩ := hx
  exact (Scalar.le_maximum 0 _).1

/-- Ranks do not run into each other. -/
lemma top_add_rankHeight_le (hgaps : ∀ x ∈ gaps, 0 ≤ x) {r r' : Nat} (hlt : r < r')
    (hr' : r' < layers.length) :
    top g layers gaps r + rankHeight g layers r ≤ top g layers gaps r' := by
  have hpairwise := (pairwise_topsFrom hgaps (heights_nonneg g layers) 0 0).2
  have hlength : (heights g layers).length = layers.length := by simp [heights]
  have htops : (topsFrom gaps 0 0 (heights g layers)).length = layers.length := by
    rw [length_topsFrom, hlength]
  have hzip : ((topsFrom gaps 0 0 (heights g layers)).zip (heights g layers)).length =
      layers.length := by
    rw [List.length_zip, htops, hlength, Nat.min_self]
  have h := List.pairwise_iff_getElem.mp hpairwise r r' (by omega) (by omega) hlt
  rw [List.getElem_zip, List.getElem_zip] at h
  rw [top, rankHeight, top, List.getD_eq_getElem _ _ (by omega),
    List.getD_eq_getElem _ _ (by omega), List.getD_eq_getElem _ _ (by omega)]
  exact h

/-- A rank is at least as high as each of its nodes. -/
lemma heightOf_le_rankHeight (hf : Layers.ByRank g layers) {v : Nat} (hv : v < g.nodes.size)
    (hrank : Layers.rankOf g v < layers.length) :
    heightOf g v ≤ rankHeight g layers (Layers.rankOf g v) := by
  have hlayer := List.getElem?_eq_getElem hrank
  have hmem := (hf.mem _ _ hlayer v).mpr ⟨hv, rfl⟩
  rw [rankHeight, heights, List.getD_eq_getElem?_getD, List.getElem?_map, hlayer]
  exact (Scalar.le_maximum 0 _).2 _ (List.mem_map.mpr ⟨v, hmem, rfl⟩)

/-! ### Centers -/

/-- The center of a node. -/
def center (p : Placement Rat) (v : Nat) : Point Rat := p.centers.getD v Point.origin

lemma center_ofLayers (hf : Layers.ByRank g layers) (passes : Nat) {v : Nat}
    (hv : v < g.nodes.size) :
    (ofLayers g layers spacing passes gaps).center v =
      ⟨(along g layers spacing passes).getD v 0,
        top g layers gaps (Layers.rankOf g v) + rankHeight g layers (Layers.rankOf g v) / 2⟩ := by
  have hsize := (spaced_along hf spacing passes).size
  have hx : v < (along g layers spacing passes).size := by omega
  simp only [center, ofLayers]
  rw [Array.getD_eq_getD_getElem?]
  simp [hv, hx, Layers.rankOf, top, rankHeight, Scalar.half]

/-- **Of two nodes of a rank, one is far enough to the right of the other.** -/
lemma beside (hg : g.Nonneg) (hf : Layers.ByRank g layers) (hspacing : 0 ≤ spacing) (passes : Nat)
    {v w : Nat} (hv : v < g.nodes.size) (hw : w < g.nodes.size) (hne : v ≠ w)
    (hrank : Layers.rankOf g v = Layers.rankOf g w) (hlt : Layers.rankOf g v < layers.length) :
    ((ofLayers g layers spacing passes gaps).center v).x + separation spacing (extentOf g v)
      (extentOf g w) ≤
        ((ofLayers g layers spacing passes gaps).center w).x ∨
      ((ofLayers g layers spacing passes gaps).center w).x + separation spacing (extentOf g w)
        (extentOf g v) ≤
        ((ofLayers g layers spacing passes gaps).center v).x := by
  have hlayer := List.getElem?_eq_getElem hlt
  have hmem := List.getElem_mem hlt
  have hpairwise := pairwise_of_spacedAt hg hspacing ((spaced_along hf spacing passes).layer _ hmem)
  have hvmem := (hf.mem _ _ hlayer v).mpr ⟨hv, rfl⟩
  have hwmem := (hf.mem _ _ hlayer w).mpr ⟨hw, hrank.symm⟩
  rw [center_ofLayers hf passes hv, center_ofLayers hf passes hw]
  exact or_of_pairwise hpairwise hvmem hwmem hne

end Placement

end Drafting.Graph
