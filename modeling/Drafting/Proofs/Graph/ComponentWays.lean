import Mathlib
import Drafting.Proofs.Graph.ComponentBoxes
import Drafting.Proofs.Graph.Routes

/-!
The ways of the edges of a connected part, and the boxes of its members.

An edge between ranks passes routing points, which are nodes of the layered graph like the
members are and so keep their distance to them.  Its text stands in a gap between two ranks
that was widened for it.

* `RoutedEdge.Avoids`: no point that an edge passes lies in a box or on a side of it, and the text
  of the edge does not overlap the box.
* `RoutedEdge.Within`: an edge and its text lie in a box.
* `Placement.FitsNode.apart_of_between`: what stands between two ranks overlaps no node.
* `Component.le_getD_gaps`: the gap that holds a text has room for it.
* `Component.Routed`: the edges of a part lie in its box, and those between ranks avoid its members.
* `Component.routed_of_layout`: so are the edges of every part that is laid out.
-/

namespace Drafting.Graph

/-! ### Edges and boxes -/

namespace RoutedEdge

variable {w : RoutedEdge Rat} {a b : Bounds Rat}

/-- No point that an edge passes lies in a box or on a side of it, and the text of the edge does not
overlap the box. -/
structure Avoids (w : RoutedEdge Rat) (b : Bounds Rat) : Prop where
  points : ∀ p ∈ w.waypoints, (Bounds.around p Size.zero).Clear b
  label : ∀ text, w.label = some text → text.Apart b

/-- The points that an edge passes and its text lie in a box. -/
structure Within (w : RoutedEdge Rat) (b : Bounds Rat) : Prop where
  points : ∀ p ∈ w.waypoints, b.Encloses (Bounds.around p Size.zero)
  label : ∀ text, w.label = some text → b.Encloses text

/-- An edge in one box avoids a box that is clear of it. -/
lemma Within.avoids (h : w.Within a) (hclear : a.Clear b) : w.Avoids b :=
  ⟨fun p hp => (h.points p hp).clear hclear, fun text htext =>
    (h.label text htext).apart hclear.apart⟩

lemma Within.mono (h : w.Within b) (hencloses : a.Encloses b) : w.Within a :=
  ⟨fun p hp => hencloses.trans (h.points p hp),
    fun text htext => hencloses.trans (h.label text htext)⟩

/-- An edge that avoids a box avoids everything inside it. -/
lemma Avoids.mono (h : w.Avoids a) (hencloses : a.Encloses b) : w.Avoids b :=
  ⟨fun p hp => (hencloses.clear (h.points p hp).symm).symm, fun text htext =>
    (hencloses.apart (h.label text htext).symm).symm⟩

lemma Avoids.translate (h : w.Avoids b) (v : Point Rat) :
    (w.translate v).Avoids (b.translate v) := by
  refine ⟨fun p hp => ?_, fun text htext => ?_⟩
  · obtain ⟨q, hq, rfl⟩ := List.mem_map.mp hp
    rw [Bounds.around_add, Bounds.clear_translate]
    exact h.points q hq
  · obtain ⟨own, hown, rfl⟩ := Option.map_eq_some_iff.mp htext
    rw [Bounds.apart_translate]
    exact h.label own hown

lemma Within.translate (h : w.Within b) (v : Point Rat) :
    (w.translate v).Within (b.translate v) := by
  refine ⟨fun p hp => ?_, fun text htext => ?_⟩
  · obtain ⟨q, hq, rfl⟩ := List.mem_map.mp hp
    rw [Bounds.around_add, Bounds.encloses_translate]
    exact h.points q hq
  · obtain ⟨own, hown, rfl⟩ := Option.map_eq_some_iff.mp htext
    rw [Bounds.encloses_translate]
    exact h.label own hown

end RoutedEdge

/-! ### Nodes of a layered graph -/

namespace Placement

variable {g : Layering Rat} {layers : Layers} {spacing : Rat} {gaps : Array Rat}

/-- A point fits every node. -/
lemma fitsNode_zero (hg : g.Nonneg) (v : Nat) : FitsNode g v Size.zero := by
  obtain ⟨hbefore, hafter⟩ := extentOf_nonneg hg v
  refine ⟨by simpa [Size.zero] using hbefore, by simpa [Size.zero] using hafter, ?_⟩
  rw [heightOf]
  cases hv : g.nodes[v]? with
  | none => exact le_refl _
  | some n => exact hg.height n (Array.mem_of_getElem? hv)

lemma rankHeight_nonneg (g : Layering Rat) (layers : Layers) (r : Nat) :
    0 ≤ rankHeight g layers r := by
  rw [rankHeight, List.getD_eq_getElem?_getD]
  cases hr : (heights g layers)[r]? with
  | none => exact le_refl _
  | some x => exact heights_nonneg g layers x (List.mem_of_getElem? hr)

/-- **What stands between two ranks overlaps no node.** -/
lemma FitsNode.apart_of_between (hlayers : Layers.Places g layers) (hgaps : ∀ x ∈ gaps, 0 ≤ x)
    (passes : Nat) {v : Nat} (hv : v < g.nodes.size) {size : Size Rat} (h : FitsNode g v size)
    {r : Nat} (hr : r + 1 < layers.length) {b : Bounds Rat}
    (hbelow : top g layers gaps r + rankHeight g layers r ≤ b.minY)
    (habove : b.maxY ≤ top g layers gaps (r + 1)) :
    b.Apart (Bounds.around ((ofLayers g layers spacing passes gaps).center v) size) := by
  obtain ⟨htop, hbottom⟩ := h.within_band hlayers spacing passes gaps hv
  have hrank := hlayers.rank_lt v hv
  rcases Nat.lt_or_ge r (Layers.rankOf g v) with hlt | hge
  · -- the rank of the node is the next one or a later one
    have hnext : top g layers gaps (r + 1) ≤ top g layers gaps (Layers.rankOf g v) := by
      rcases Nat.eq_or_lt_of_le hlt with heq | hlt
      · rw [← heq]
      · have hheight := rankHeight_nonneg g layers (r + 1)
        have hstacked := top_add_rankHeight_le (g := g) hgaps hlt hrank
        linarith
    exact Or.inr (Or.inr (Or.inl (by linarith)))
  · have hlast : top g layers gaps (Layers.rankOf g v) + rankHeight g layers (Layers.rankOf g v) ≤
        top g layers gaps r + rankHeight g layers r := by
      rcases Nat.eq_or_lt_of_le hge with heq | hlt
      · rw [heq]
      · have hheight := rankHeight_nonneg g layers r
        have hstacked := top_add_rankHeight_le (g := g) hgaps hlt (Nat.lt_of_succ_lt hr)
        linarith
    exact Or.inr (Or.inr (Or.inr (by linarith)))

end Placement

/-! ### Texts of edges between ranks -/

/-- There is a rank below the gap that holds the text of an edge. -/
lemma labelGap?_lt {width : Rat} {named : Nat} {members : List (MemberShape Rat)}
    {edges : List (Nat × Nat)} {chain : List Nat} {gap : Nat}
    (h : labelGap? (Layering.ofEdges width named members edges) chain = some gap) :
    gap + 1 < (Layering.ofEdges width named members edges).rankCount := by
  rw [labelGap?] at h
  split at h
  · next first last _ _ =>
      dsimp only at h
      split at h
      · next hrise =>
          obtain rfl := Option.some.inj h
          -- only nodes that exist have a rank below the first one
          have hlast : last < (Layering.ofEdges width named members edges).nodes.size := by
            by_contra hlast
            rw [Layers.rankOf, Layers.rankOf, Array.getElem?_eq_none
              (Nat.le_of_not_lt hlast)] at hrise
            cases hrise
          have hrank := Layering.rank_lt_rankCount hlast
          omega
      · cases h
  · cases h

namespace Routing

variable {r : Routing Rat}

/-- The text of an edge stands in the middle of a gap; if there is room for
it, between the ranks. -/
lemma between_of_gapLabel? {spacing : Rat} {passes : Nat}
    (hplacement : r.placement = Placement.ofLayers r.layering r.layers spacing passes r.gaps)
    {chain : List Nat} {gap : Nat} {size : Size Rat} {box : Bounds Rat}
    (hrank : gap + 1 < r.layers.length) (hgap : gap < r.gaps.size)
    (hroom : size.height ≤ r.gaps.getD gap 0) (h : r.gapLabel? chain gap size = some box) :
    Placement.top r.layering r.layers r.gaps gap + Placement.rankHeight r.layering r.layers gap ≤
        box.minY ∧
      box.maxY ≤ Placement.top r.layering r.layers r.gaps (gap + 1) := by
  simp only [gapLabel?, hplacement, Placement.getD_rankTops, Placement.getD_rankHeights] at h
  split at h
  · obtain rfl := Option.some.inj h
    rw [Placement.top_succ hrank, Placement.gapAfter_of_lt hgap]
    simp only [Bounds.around, Scalar.half]
    exact ⟨by linarith, by linarith⟩
  · cases h

/-- An edge between ranks has its text in a gap that it crosses. -/
lemma of_label_link {chain : List Nat} {edge source target : Nat} {reversed : Bool}
    {label : Option (Size Rat)} {box : Bounds Rat}
    (hkind : (r.link chain edge source target reversed label).kind = .normal)
    (hbox : (r.link chain edge source target reversed label).label = some box) :
    ∃ gap size, labelGap? r.layering chain = some gap ∧ label = some size ∧
      r.gapLabel? chain gap size = some box := by
  rw [link] at hkind hbox
  cases hgap : labelGap? r.layering chain with
  | none =>
      rw [hgap] at hkind
      cases hkind
  | some gap =>
      rw [hgap] at hbox
      obtain ⟨size, hsize, hbox⟩ := Option.bind_eq_some_iff.mp hbox
      exact ⟨gap, size, rfl, hsize, hbox⟩

end Routing

namespace Component

variable {config : GraphConfig Rat} {sizes : Array (Size Rat)} {shapes : Array (EdgeShape Rat)}
    {s : Scope} {c : Component} {named after : Nat} {l : ComponentLayout Rat}

/-- An entry is not lowered when some entry is raised. -/
lemma le_getD_modify_max {a : Array Rat} {i : Nat} {x : Rat} (h : x ≤ a.getD i 0) (j : Nat)
    (y : Rat) : x ≤ (a.modify j (max · y)).getD i 0 := by
  rw [Array.getD_eq_getD_getElem?] at h ⊢
  rw [Array.getElem?_modify]
  split
  · cases hi : a[i]? with
    | none => simpa [hi] using h
    | some old =>
        rw [hi] at h
        exact h.trans (le_max_left _ _)
  · exact h

/-- **The gap that holds a text has room for it.** -/
lemma le_getD_gaps (config : GraphConfig Rat) {g : Layering Rat} {e : ScopeEdge} {chain : List Nat}
    (hmem : (e, chain) ∈ c.links.zip g.chains) {size : Size Rat}
    (hsize : labelOf shapes e.edge = some size) {gap : Nat} (hgap : labelGap? g chain = some gap)
    (hlt : gap < g.rankCount - 1) :
    size.height + 2 * config.edgeLabelPadding ≤ (c.gaps config shapes g).getD gap 0 := by
  obtain ⟨before, rest, hsplit⟩ := List.append_of_mem hmem
  rw [gaps, hsplit, List.foldl_append, List.foldl_cons]
  -- later texts leave the gap at least as wide
  refine List.foldlRecOn (motive := fun gaps => size.height + 2 * config.edgeLabelPadding ≤
    Array.getD gaps gap 0) rest _ ?_ fun gaps hle link _ => ?_
  · simp only [hsize, hgap]
    rw [getD_modify_of_lt, if_pos rfl]
    · exact le_max_right _ _
    · rwa [size_foldl (fun gaps link => ?_), Array.size_replicate]
      split
      · exact Array.size_modify
      · rfl
  · dsimp only
    split
    · exact le_getD_modify_max hle _ _
    · exact hle

/-! ### The edges of a part -/

/-- The edges of a part lie in its box, and those between ranks avoid its members. -/
structure Routed (l : ComponentLayout Rat) : Prop where
  within : ∀ w ∈ l.edges, w.Within l.bounds
  avoids : ∀ w ∈ l.edges, w.kind = .normal → ∀ m ∈ l.members, w.Avoids m.bounds

lemma within_boundsOf (members : List (PlacedMember Rat)) {edges : List (RoutedEdge Rat)}
    {w : RoutedEdge Rat} (hw : w ∈ edges) : w.Within (boundsOf members edges) := by
  have hall : ∀ b ∈ w.waypoints.map (Bounds.around · Size.zero) ++ w.label.toList,
      (boundsOf members edges).Encloses b := fun b hb =>
    (Bounds.encloses_foldl_merge _ _).2 b (List.mem_flatMap.mpr ⟨w, hw, hb⟩)
  refine ⟨fun p hp => hall _ ?_, fun text htext => hall _ ?_⟩
  · exact List.mem_append_left _ (List.mem_map.mpr ⟨p, hp, rfl⟩)
  · exact List.mem_append_right _ (Option.mem_toList.mpr htext)

section Ranked

variable {ranking : Ranking} {i j v : Nat} {e : ScopeEdge} {chain : List Nat}

/-- A routing point is clear of the members of its part. -/
lemma clear_routingPoint (hconfig : config.Sensible) (hsizes : NonnegSizes sizes)
    {n : LayerNode Rat}
    {link : Nat} (hn : (c.layering config sizes shapes named ranking).nodes[j]? = some n)
    (hkind : n.kind = .routing link) (hv : c.members[i]? = some v) :
    (Bounds.around ((c.placement config sizes shapes named ranking).center j) Size.zero).Clear
      (Bounds.around ((c.placement config sizes shapes named ranking).center i)
        (sizeOf sizes v)) := by
  have hnode := getElem?_nodes_layering config sizes shapes named ranking hv
  have hne : j ≠ i := by
    rintro rfl
    obtain rfl := Option.some.inj (hn.symm.trans hnode)
    cases hkind
  exact clear_nodes hconfig hsizes named ranking hne (Array.getElem?_eq_some_iff.mp hn).1
    (Array.getElem?_eq_some_iff.mp hnode).1
    (Placement.fitsNode_zero (nonneg_layering hconfig hsizes named ranking) j)
    (fitsNode_member shapes named ranking hv)

/-- The text of an edge between ranks overlaps no member of its part. -/
lemma apart_label (hconfig : config.Sensible) (he : c.links[j]? = some e)
    (hchain : (c.layering config sizes shapes named ranking).chains[j]? = some chain)
    {source target : Nat} {reversed : Bool} {box : Bounds Rat} :
    let r := c.routing config sizes shapes named ranking
    let w := r.link chain e.edge source target reversed (labelOf shapes e.edge)
    w.kind = .normal → w.label = some box → c.members[i]? = some v →
      box.Apart (Bounds.around (r.center i) (sizeOf sizes v)) := by
  intro r w hkind hbox hv
  obtain ⟨gap, size, hgap, hsize, hbox⟩ := Routing.of_label_link hkind hbox
  have hlength : r.layers.length = r.layering.rankCount := (Layers.fits_minimize _ _ _).length
  have hlt : gap + 1 < r.layering.rankCount := labelGap?_lt hgap
  have hroom : size.height + 2 * config.edgeLabelPadding ≤ r.gaps.getD gap 0 :=
    le_getD_gaps config (List.mem_iff_getElem?.mpr
      ⟨j, List.getElem?_zip_eq_some.mpr ⟨he, hchain⟩⟩) hsize hgap (Nat.lt_sub_of_add_lt hlt)
  have hgapSize : gap < r.gaps.size := by
    rw [show r.gaps.size = r.layering.rankCount - 1 from size_gaps config shapes c r.layering]
    exact Nat.lt_sub_of_add_lt hlt
  have hpadding := hconfig.edgeLabelPadding
  obtain ⟨hbelow, habove⟩ := Routing.between_of_gapLabel? rfl (hlt.trans_eq hlength.symm) hgapSize
    (by linarith) hbox
  have hgaps : ∀ x ∈ r.gaps, 0 ≤ x := fun x hx =>
    hconfig.rankGap.le.trans (gaps_atLeast config shapes c r.layering x hx)
  have hnode := getElem?_nodes_layering config sizes shapes named ranking hv
  exact (fitsNode_member shapes named ranking hv).apart_of_between
    (places_minimize config sizes shapes c named ranking) hgaps _
    (Array.getElem?_eq_some_iff.mp hnode).1 (hlt.trans_eq hlength.symm) hbelow habove

/-- The box of a member of a ranked part is around its node. -/
lemma exists_of_mem_place {layers : Layers} {p : Placement Rat} {m : PlacedMember Rat}
    (hm : m ∈ c.place sizes ranking.ranks layers p) :
    ∃ i v, c.members[i]? = some v ∧ m.bounds = Bounds.around (p.center i) (sizeOf sizes v) := by
  obtain ⟨i, hi, rfl⟩ := List.mem_mapIdx.mp hm
  exact ⟨i, _, List.getElem?_eq_getElem hi, rfl⟩

end Ranked

/-- **The edges of a part are drawn clear of its members**, those within a rank and loops apart. -/
lemma routed_of_layout (hconfig : config.Sensible) (hsizes : NonnegSizes sizes) (hs : s.WellFormed)
    (hc : c ∈ ofScope s) (h : c.layout config sizes shapes named = .ok (l, after)) : Routed l := by
  obtain ⟨ranking, hranked, rfl, -⟩ := exists_ranked hs hc h
  refine ⟨fun w hw => within_boundsOf _ hw, fun w hw hkind m hm => ?_⟩
  obtain ⟨i, v, hv, hbounds⟩ := exists_of_mem_place hm
  have hw : w ∈ c.routes shapes ranking.reversed (c.routing config sizes shapes named ranking) := hw
  rw [hbounds]
  rcases mem_routes hw with ⟨j, e, chain, he, hchain, rfl⟩ | ⟨e, -, rfl⟩
  · refine ⟨fun p hp => ?_, fun text htext => ?_⟩
    · obtain ⟨link, points, -, halong, hpoints⟩ :=
        (follows_of_links hs hc hranked he hchain _).normal hkind
      rw [hpoints] at hp
      obtain ⟨u, hu, rfl⟩ := List.mem_map.mp hp
      obtain ⟨n, hn, hrouting⟩ := halong.routing u hu
      exact clear_routingPoint hconfig hsizes hn hrouting hv
    · exact apart_label hconfig he hchain hkind htext hv
  · cases hkind

end Component

end Drafting.Graph
