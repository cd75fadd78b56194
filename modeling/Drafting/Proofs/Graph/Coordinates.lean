import Mathlib
import Drafting.Proofs.Graph.Placement

/-!
What is known of the coordinates of a layered graph.

* `Placement.isLeast_alignLeft`: the leftmost node begins at zero.
* `Placement.getD_topsFrom_succ`, `Placement.top_add_rankHeight_lt`: each rank begins below the one
  before it, with the gap between.
* `Placement.Spread`, `Placement.ofLayers_spreads_nodes`: nodes keep the order and the distances of
  their layers, begin at zero, and stand in bands of their ranks.
-/

namespace Drafting.Graph

namespace Placement

variable {g : Layering Rat} {layers : Layers} {spacing : Rat} {gaps : Array Rat} {xs : Array Rat}

/-- Nodes of a layered graph are placed: in the order of their layers and far enough from each
other, from zero on, and each in the band of its rank. -/
structure Spread (g : Layering Rat) (layers : Layers) (spacing : Rat) (gaps : Array Rat)
    (p : Placement Rat) : Prop where
  /-- Every node has a center, and every layer a band. -/
  sizes : p.centers.size = g.nodes.size ∧ p.rankTops.size = layers.length ∧
    p.rankHeights.size = layers.length
  /-- A node begins no nearer than the spacing after the one before it ends. -/
  apart : ∀ layer ∈ layers, layer.IsChain fun v w =>
    (p.center v).x + (extentOf g v).after + spacing ≤ (p.center w).x - (extentOf g w).before
  /-- The nodes of a layer keep their order. -/
  order : ∀ layer ∈ layers, layer.Pairwise fun v w => (p.center v).x < (p.center w).x
  /-- The leftmost node begins at zero. -/
  leftmost : 0 < g.nodes.size →
    IsLeast {x | ∃ v < g.nodes.size, x = (p.center v).x - (extentOf g v).before} 0
  /-- A node lies in the band of its rank. -/
  within : ∀ v < g.nodes.size,
    p.rankTops.getD (Layers.rankOf g v) 0 ≤ (p.center v).y - heightOf g v / 2 ∧
      (p.center v).y + heightOf g v / 2 ≤
        p.rankTops.getD (Layers.rankOf g v) 0 + p.rankHeights.getD (Layers.rankOf g v) 0
  /-- The gap of a rank is between its band and the next. -/
  bands : ∀ r, r + 1 < layers.length →
    p.rankTops.getD (r + 1) 0 =
      p.rankTops.getD r 0 + p.rankHeights.getD r 0 + gapAfter gaps r
  /-- A band ends before the later ones begin. -/
  stacked : ∀ r r', r < r' → r' < layers.length →
    p.rankTops.getD r 0 + p.rankHeights.getD r 0 ≤ p.rankTops.getD r' 0

/-! ### The leftmost node -/

/-- The least of some numbers, found from the left. -/
lemma foldl_least (ys : List Rat) (start : Rat) :
    ∃ least, ys.foldl (fun least x => some ((least.map (min · x)).getD x)) (some start) =
        some least ∧
      IsLeast {x | x ∈ start :: ys} least := by
  induction ys generalizing start with
  | nil => exact ⟨start, rfl, by simp⟩
  | cons y ys ih =>
      obtain ⟨least, hfold, hmem, hle⟩ := ih (min start y)
      have hstart : least ≤ min start y := hle List.mem_cons_self
      refine ⟨least, hfold, ?_, fun x hx => ?_⟩
      · rcases List.mem_cons.mp hmem with rfl | hmem
        · rcases min_choice start y with hmin | hmin
          · rw [hmin]
            exact List.mem_cons_self
          · rw [hmin]
            exact List.mem_cons_of_mem _ List.mem_cons_self
        · exact List.mem_cons_of_mem _ (List.mem_cons_of_mem _ hmem)
      · rcases List.mem_cons.mp hx with rfl | hx
        · exact hstart.trans (min_le_left _ _)
        · rcases List.mem_cons.mp hx with rfl | hx
          · exact hstart.trans (min_le_right _ _)
          · exact hle (List.mem_cons_of_mem _ hx)

/-- Where the nodes begin. -/
lemma mem_starts (hsize : xs.size = g.nodes.size) {x : Rat} :
    x ∈ (g.nodes.toList.zip xs.toList).map (fun (n, x) => x - n.extent.before) ↔
      ∃ v < g.nodes.size, x = xs.getD v 0 - (extentOf g v).before := by
  rw [List.mem_map]
  constructor
  · rintro ⟨⟨n, y⟩, hmem, rfl⟩
    obtain ⟨v, hv⟩ := List.mem_iff_getElem?.mp hmem
    obtain ⟨hn, hy⟩ := List.getElem?_zip_eq_some.mp hv
    rw [Array.getElem?_toList] at hn hy
    refine ⟨v, (Array.getElem?_eq_some_iff.mp hn).1, ?_⟩
    simp [extentOf, hn, hy]
  · rintro ⟨v, hv, rfl⟩
    have hx : v < xs.size := by omega
    refine ⟨(g.nodes[v], xs[v]), List.mem_iff_getElem?.mpr ⟨v, ?_⟩, ?_⟩
    · simp [hv, hx]
    · simp [extentOf, hv, hx]

lemma exists_leftmost? (hsize : xs.size = g.nodes.size) (hpos : 0 < g.nodes.size) :
    ∃ left, leftmost? g xs = some left ∧
      IsLeast {x | ∃ v < g.nodes.size, x = xs.getD v 0 - (extentOf g v).before} left := by
  rw [leftmost?]
  have hmem := fun x => mem_starts (x := x) hsize
  cases hstarts : (g.nodes.toList.zip xs.toList).map (fun (n, x) => x - n.extent.before) with
  | nil =>
      have hsome := (hmem _).mpr ⟨0, hpos, rfl⟩
      rw [hstarts] at hsome
      cases hsome
  | cons start rest =>
      obtain ⟨least, hfold, hleast⟩ := foldl_least rest start
      refine ⟨least, hfold, ?_⟩
      rw [← hstarts] at hleast
      simpa only [hmem] using hleast

/-- **The leftmost node begins at zero.** -/
lemma isLeast_alignLeft (hsize : xs.size = g.nodes.size) (hpos : 0 < g.nodes.size) :
    IsLeast {x | ∃ v < g.nodes.size, x = (alignLeft g xs).getD v 0 - (extentOf g v).before} 0 := by
  obtain ⟨left, hleft, ⟨v, hv, hmin⟩, hle⟩ := exists_leftmost? hsize hpos
  have hmoved : ∀ w < g.nodes.size, (alignLeft g xs).getD w 0 = xs.getD w 0 - left := by
    intro w hw
    have hx : w < xs.size := by omega
    have haligned : alignLeft g xs = xs.map (· - left) := by
      rw [alignLeft, hleft]
      rfl
    simp [haligned, hx]
  refine ⟨⟨v, hv, ?_⟩, ?_⟩
  · rw [hmoved v hv]
    linarith
  · rintro x ⟨w, hw, rfl⟩
    have hw' := hle ⟨w, hw, rfl⟩
    rw [hmoved w hw]
    linarith

/-! ### The bands of the ranks -/

/-- Each rank begins below the one before it, with the gap between. -/
lemma getD_topsFrom_succ {heights : List Rat} (rank : Nat) (cursor : Rat) {i : Nat}
    (hi : i + 1 < heights.length) :
    (topsFrom gaps rank cursor heights).getD (i + 1) 0 =
      (topsFrom gaps rank cursor heights).getD i 0 + heights.getD i 0 +
        gapAfter gaps (rank + i) := by
  induction heights generalizing rank cursor i with
  | nil => cases hi
  | cons height heights ih =>
      rw [List.length_cons, Nat.add_lt_add_iff_right] at hi
      cases i with
      | zero =>
          cases heights with
          | nil => cases hi
          | cons next heights =>
              simp only [topsFrom, List.getD_cons_succ, List.getD_cons_zero, Nat.add_zero]
              ring
      | succ i =>
          rw [topsFrom, List.getD_cons_succ, List.getD_cons_succ, List.getD_cons_succ,
            ih (rank + 1) _ hi, Nat.add_right_comm, Nat.add_assoc rank i 1]

/-- Where the next rank begins. -/
lemma top_succ {r : Nat} (hr : r + 1 < layers.length) :
    top g layers gaps (r + 1) =
      top g layers gaps r + rankHeight g layers r + gapAfter gaps r := by
  rw [top, top, rankHeight, getD_topsFrom_succ 0 0 (by simpa [heights] using hr), Nat.zero_add]

lemma gapAfter_of_lt {r : Nat} (hr : r < gaps.size) : gapAfter gaps r = gaps.getD r 0 := by
  simp [gapAfter, hr]

/-- A rank ends strictly before the later ones begin, if there is a gap below each but the last. -/
lemma top_add_rankHeight_lt (hgaps : ∀ x ∈ gaps, 0 < x) (hcount : layers.length ≤ gaps.size + 1)
    {r r' : Nat} (hlt : r < r') (hr' : r' < layers.length) :
    top g layers gaps r + rankHeight g layers r < top g layers gaps r' := by
  have hsize : r < gaps.size := by omega
  have hgap : 0 < gapAfter gaps r := by
    rw [gapAfter_of_lt hsize, Array.getD_eq_getD_getElem?, Array.getElem?_eq_getElem hsize]
    exact hgaps _ (Array.getElem_mem hsize)
  have hnext : top g layers gaps r + rankHeight g layers r < top g layers gaps (r + 1) := by
    rw [top_succ (by omega)]
    exact lt_add_of_pos_right _ hgap
  rcases Nat.eq_or_lt_of_le (Nat.succ_le_of_lt hlt) with rfl | hlt
  · exact hnext
  · have hheight : 0 ≤ rankHeight g layers (r + 1) := by
      rw [rankHeight, List.getD_eq_getElem _ _ (by simpa [heights] using hlt.trans hr')]
      exact heights_nonneg g layers _ (List.getElem_mem _)
    calc top g layers gaps r + rankHeight g layers r
      _ < top g layers gaps (r + 1) := hnext
      _ ≤ top g layers gaps (r + 1) + rankHeight g layers (r + 1) := le_add_of_nonneg_right hheight
      _ ≤ top g layers gaps r' := top_add_rankHeight_le (fun x hx => (hgaps x hx).le) hlt hr'

lemma getD_rankTops (passes r : Nat) :
    (ofLayers g layers spacing passes gaps).rankTops.getD r 0 = top g layers gaps r := by
  simp [ofLayers, top]

lemma getD_rankHeights (passes r : Nat) :
    (ofLayers g layers spacing passes gaps).rankHeights.getD r 0 = rankHeight g layers r := by
  simp [ofLayers, rankHeight]

/-! ### All nodes -/

section

variable (hf : Layers.ByRank g layers) (passes : Nat)
include hf

lemma size_centers :
    (ofLayers g layers spacing passes gaps).centers.size = g.nodes.size := by
  have hsize := (spaced_along hf spacing passes).size
  simp [ofLayers, hsize]

lemma center_x {v : Nat} (hv : v < g.nodes.size) :
    ((ofLayers g layers spacing passes gaps).center v).x =
      (along g layers spacing passes).getD v 0 := by
  rw [center_ofLayers hf passes hv]

/-- Neighbours of a layer are apart. -/
lemma isChain_centers {layer : List Nat} (hlayer : layer ∈ layers) :
    layer.IsChain fun v w => ((ofLayers g layers spacing passes gaps).center v).x +
      (extentOf g v).after + spacing ≤
        ((ofLayers g layers spacing passes gaps).center w).x - (extentOf g w).before := by
  have hspaced := (List.isChain_map _).mp ((spaced_along hf spacing passes).layer layer hlayer)
  refine hspaced.imp_of_mem_imp fun v w hv hw h => ?_
  rw [center_x hf passes (hf.lt_of_mem hlayer hv), center_x hf passes (hf.lt_of_mem hlayer hw)]
  simp only [KeepsDistance, separation] at h
  linarith

/-- The nodes of a layer are in order. -/
lemma pairwise_centers (hg : g.Nonneg) (hspacing : 0 < spacing) {layer : List Nat}
    (hlayer : layer ∈ layers) :
    layer.Pairwise fun v w => ((ofLayers g layers spacing passes gaps).center v).x <
      ((ofLayers g layers spacing passes gaps).center w).x := by
  have hspaced := pairwise_of_spacedAt hg hspacing.le
    ((spaced_along hf spacing passes).layer layer hlayer)
  refine hspaced.imp_of_mem fun {v w} hv hw h => ?_
  rw [center_x hf passes (hf.lt_of_mem hlayer hv), center_x hf passes (hf.lt_of_mem hlayer hw)]
  have hv' := (extentOf_nonneg hg v).2
  have hw' := (extentOf_nonneg hg w).1
  rw [separation] at h
  linarith

/-- The leftmost of all nodes begins at zero. -/
lemma isLeast_centers (hpos : 0 < g.nodes.size) :
    IsLeast {x | ∃ v < g.nodes.size,
      x = ((ofLayers g layers spacing passes gaps).center v).x - (extentOf g v).before} 0 := by
  have hleast : IsLeast {x | ∃ v < g.nodes.size,
      x = (along g layers spacing passes).getD v 0 - (extentOf g v).before} 0 := by
    rw [along]
    exact isLeast_alignLeft ((spaced_pack hf).relax hf _ _ _ passes true).size hpos
  obtain ⟨⟨v, hv, hzero⟩, hle⟩ := hleast
  refine ⟨⟨v, hv, by rwa [center_x hf passes hv]⟩, ?_⟩
  rintro x ⟨w, hw, rfl⟩
  rw [center_x hf passes hw]
  exact hle ⟨w, hw, rfl⟩

/-- A node stands in the middle of the band of its rank, which is at least as high. -/
lemma within_band {v : Nat} (hv : v < g.nodes.size) (hrank : Layers.rankOf g v < layers.length) :
    top g layers gaps (Layers.rankOf g v) ≤
        ((ofLayers g layers spacing passes gaps).center v).y - heightOf g v / 2 ∧
      ((ofLayers g layers spacing passes gaps).center v).y + heightOf g v / 2 ≤
        top g layers gaps (Layers.rankOf g v) + rankHeight g layers (Layers.rankOf g v) := by
  have hheight := heightOf_le_rankHeight hf hv hrank
  rw [center_ofLayers hf passes hv]
  constructor
  · simp only
    linarith
  · simp only
    linarith

end

/-- **Coordinates keep order and spacing.**  However often ranks are adjusted to their
neighbours, the nodes of a layer stay in order and apart by the spacing, the leftmost of all
nodes begins at zero, and each node lies in the band of its rank, where bands follow each other
with the gaps between. -/
theorem ofLayers_spreads_nodes (g : Layering Rat) (hg : g.Nonneg) (layers : Layers)
    (hlayers : Layers.Places g layers) (spacing : Rat) (hspacing : 0 < spacing) (passes : Nat)
    (gaps : Array Rat) (hgaps : ∀ x ∈ gaps, 0 ≤ x) :
    Spread g layers spacing gaps (ofLayers g layers spacing passes gaps) where
  sizes := by
    refine ⟨size_centers hlayers.toByRank passes, ?_, ?_⟩
    · simp [ofLayers, length_topsFrom, heights]
    · simp [ofLayers, heights]
  apart := fun _ hlayer => isChain_centers hlayers.toByRank passes hlayer
  order := fun _ hlayer => pairwise_centers hlayers.toByRank passes hg hspacing hlayer
  leftmost := fun hpos => isLeast_centers hlayers.toByRank passes hpos
  within := by
    intro v hv
    rw [getD_rankTops, getD_rankHeights]
    exact within_band hlayers.toByRank passes hv (hlayers.rank_lt v hv)
  bands := by
    intro r hr
    rw [getD_rankTops, getD_rankTops, getD_rankHeights, top, top, rankHeight,
      getD_topsFrom_succ 0 0 (by simpa [heights] using hr), Nat.zero_add]
  stacked := by
    intro r r' hlt hr'
    rw [getD_rankTops, getD_rankTops, getD_rankHeights]
    exact top_add_rankHeight_le hgaps hlt hr'

/-- A routing point is drawn under the node that its edge leaves and pushes another node aside, past
zero; then all nodes move so that this one begins there. -/
theorem spreads_a_long_edge :
    let g : Layering Rat :=
      Layering.ofEdges 10 0 [⟨0, ⟨5, 5⟩, 10⟩, ⟨0, ⟨5, 15⟩, 30⟩, ⟨1, ⟨5, 5⟩, 10⟩, ⟨2, ⟨5, 5⟩, 10⟩]
        [(0, 2), (0, 3), (1, 2)]
    let layers : Layers := [[0, 1], [2, 4], [3]]
    g.Nonneg ∧ Layers.Places g layers ∧
      Spread g layers 20 #[40] (ofLayers g layers 20 1 #[40]) ∧
      ofLayers g layers 20 1 #[40] =
        ⟨#[⟨35, 15⟩, ⟨65, 15⟩, ⟨5, 75⟩, ⟨35, 125⟩, ⟨35, 75⟩], #[0, 70, 120], #[30, 10, 10]⟩ := by
  intro g layers
  have hg : g.Nonneg := ⟨by decide +kernel, by decide +kernel, by decide +kernel⟩
  have hinitial : Layers.initial g = layers := by cbv
  have hlayers : Layers.Places g layers :=
    hinitial ▸ (Layers.fits_initial g).places (by decide +kernel)
  have hspread :=
    ofLayers_spreads_nodes g hg layers hlayers 20 (by decide) 1 #[40] (by decide)
  exact ⟨hg, hlayers, hspread, by cbv⟩

end Placement

end Drafting.Graph
