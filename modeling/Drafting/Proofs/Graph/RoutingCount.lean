import Mathlib
import Drafting.Proofs.Graph.Elements
import Drafting.Proofs.Graph.Lifting
import Drafting.Proofs.Graph.Rooms

/-!
How many routing points a graph takes.

A graph is refused when it has too many elements, and there an edge counts once for each rank
that its length spans.  Where other edges draw its ends further apart, it passes more routing
points than it counts for.

* `RoutedEdge.routingCount`, `EdgeGeometry.routingCount`: the routing points that an edge passes.
* `Component.after_eq`, `ScopeLayout.after_eq`, `Interiors.named_eq`: each routing point that gets a
  name is passed by one edge.
* `Component.rank_le`: no rank is larger than the lengths of all edges together.
* `Diagram.limit_bounds_routing_points`: what the limit on elements says about routing points.
-/

namespace Drafting.Graph

/-! ### Sums over numbered things -/

section Sums

variable {β : Type} {xs : List β} {key : β → Nat} {f : β → Nat} {g : Nat → Nat} {n : Nat}

/-- A sum over things with different numbers is a sum over numbers. -/
lemma sum_map_eq_sum_range (hnodup : (xs.map key).Nodup) (hlt : ∀ x ∈ xs, key x < n)
    (hfg : ∀ x ∈ xs, g (key x) = f x) (hzero : ∀ k < n, k ∉ xs.map key → g k = 0) :
    (xs.map f).sum = ∑ k ∈ Finset.range n, g k := by
  have hsub : (xs.map key).toFinset ⊆ Finset.range n := by
    intro k hk
    obtain ⟨x, hx, rfl⟩ := List.mem_map.mp (List.mem_toFinset.mp hk)
    exact Finset.mem_range.mpr (hlt x hx)
  calc (xs.map f).sum = ((xs.map key).map g).sum := by
        rw [List.map_map]
        exact congrArg List.sum (List.map_congr_left fun x hx => (hfg x hx).symm)
    _ = ∑ k ∈ (xs.map key).toFinset, g k := (List.sum_toFinset g hnodup).symm
    _ = ∑ k ∈ Finset.range n, g k := by
        refine Finset.sum_subset hsub fun k hk hnot => hzero k (Finset.mem_range.mp hk) ?_
        exact fun hmem => hnot (List.mem_toFinset.mpr hmem)

lemma sum_map_le_sum_range (hnodup : (xs.map key).Nodup) (hlt : ∀ x ∈ xs, key x < n)
    (hfg : ∀ x ∈ xs, g (key x) = f x) : (xs.map f).sum ≤ ∑ k ∈ Finset.range n, g k := by
  have hsum := sum_map_eq_sum_range (g := fun k => if k ∈ xs.map key then g k else 0) hnodup hlt
    (fun x hx => (if_pos (List.mem_map_of_mem hx)).trans (hfg x hx)) (fun k _ hk => if_neg hk)
  rw [hsum]
  refine Finset.sum_le_sum fun k _ => ?_
  split
  · exact le_rfl
  · exact Nat.zero_le _

lemma sum_range_getElem? (xs : List β) (f : β → Nat) :
    ∑ k ∈ Finset.range xs.length, (xs[k]?.map f).getD 0 = (xs.map f).sum := by
  induction xs with
  | nil => rfl
  | cons x xs ih =>
      rw [List.length_cons, Finset.sum_range_succ', List.map_cons, List.sum_cons,
        ← ih, Nat.add_comm]
      rfl

end Sums

/-! ### Routing points along edges -/

namespace Layering

variable {α : Type} [Scalar α]

omit [Scalar α] in
lemma length_chain_of_mem_cutFrom {rank : Nat → Nat} {edge free : Nat} {edges : List (Nat × Nat)}
    {cut : Cut} (h : cut ∈ cutFrom rank edge free edges) :
    cut.chain.length - 2 = cut.ranks.length := by
  induction edges generalizing edge free with
  | nil => simp [cutFrom] at h
  | cons e edges ih =>
      rw [cutFrom] at h
      rcases List.mem_cons.mp h with rfl | h
      · simp
      · exact ih h

lemma length_allRoutingPoints (width : α) (named : Nat) (cuts : List Cut) :
    (allRoutingPoints width named cuts).length = (cuts.map (·.ranks.length)).sum := by
  induction cuts generalizing named with
  | nil => rfl
  | cons cut cuts ih => simp [allRoutingPoints, routingPoints, ih]

/-- Every node that is no member lies on a chain between its ends. -/
lemma size_nodes_ofEdges (width : α) (named : Nat) (members : List (MemberShape α))
    (edges : List (Nat × Nat)) :
    (ofEdges width named members edges).nodes.size =
      members.length + ((ofEdges width named members edges).chains.map (·.length - 2)).sum := by
  simp only [ofEdges, List.size_toArray, List.length_append, List.length_mapIdx,
    length_allRoutingPoints, List.map_map]
  refine congrArg (members.length + ·.sum) (List.map_congr_left fun cut hcut => ?_)
  exact (length_chain_of_mem_cutFrom hcut).symm

end Layering

variable {α : Type}

/-- The number of routing points that an edge passes. -/
def RoutedEdge.routingCount (w : RoutedEdge α) : Nat :=
  if w.kind = .normal then w.waypoints.length else 0

/-- The number of routing points that a drawn edge passes. -/
def EdgeGeometry.routingCount (g : EdgeGeometry α) : Nat :=
  if g.kind = .normal then g.points.length - 2 else 0

variable [Scalar α]

@[simp] lemma RoutedEdge.routingCount_translate (w : RoutedEdge α) (v : Point α) :
    (w.translate v).routingCount = w.routingCount := by
  simp [routingCount, translate]

lemma Routing.routingCount_link {r : Routing α} {i u v : Nat} {points : List Nat}
    (halong : r.layering.Along i (ranksBetween (Layers.rankOf r.layering u)
      (Layers.rankOf r.layering v)) points)
    (hle : Layers.rankOf r.layering u ≤ Layers.rankOf r.layering v) (edge source target : Nat)
    (reversed : Bool) (label : Option (Size α)) :
    (r.link (u :: (points ++ [v])) edge source target reversed label).routingCount =
      points.length := by
  have hlength := halong.length_points
  rw [link, labelGap?_chain]
  split
  · cases reversed <;> simp [ranked, RoutedEdge.routingCount]
  · next hgap =>
      split at hgap
      · cases hgap
      · -- within a rank there is nothing to pass
        simp only [flat, RoutedEdge.routingCount, reduceCtorEq, if_false]
        omega

namespace Component

variable {config : GraphConfig α} {sizes : Array (Size α)} {shapes : Array (EdgeShape α)}
    {s : Scope} {c : Component} {named after : Nat} {l : ComponentLayout α}

/-- **Each routing point of a part is passed by one edge.** -/
lemma after_eq (hs : s.WellFormed) (hc : c ∈ ofScope s)
    (h : c.layout config sizes shapes named = .ok (l, after)) :
    after = named + (l.edges.map (·.routingCount)).sum := by
  obtain ⟨ranking, hranked, rfl, rfl⟩ := exists_ranked hs hc h
  set r := c.routing config sizes shapes named ranking with hr
  have hlength : r.layering.chains.length = c.links.length := by
    rw [hr, routing, length_chains, hranked.oriented, Digraph.length_arcs_orient, arcs_digraph,
      List.length_map]
  have hlinks : ((c.links.zip r.layering.chains).mapIdx (fun i p =>
      r.link p.2 p.1.edge (c.localIndex p.1.source) (c.localIndex p.1.target)
        (ranking.reversed.contains i) (labelOf shapes p.1.edge))).map (·.routingCount) =
      r.layering.chains.map (·.length - 2) := by
    refine List.ext_getElem (by simp [hlength]) fun i hi _ => ?_
    rw [List.length_map, List.length_mapIdx, List.length_zip, lt_min_iff] at hi
    have hchain := List.getElem?_eq_getElem hi.2
    obtain ⟨u, v, points, heq, hrise, halong, -⟩ :=
      exists_chain_of_links hs hc hranked (List.getElem?_eq_getElem hi.1) hchain
    simp only [List.getElem_map, List.getElem_mapIdx, List.getElem_zip, heq]
    rw [Routing.routingCount_link (r := r) halong hrise]
    simp
  have hloops : (c.loops.map fun e => r.selfLoop e.edge (c.localIndex e.source)
      (labelOf shapes e.edge)).map (·.routingCount) = c.loops.map fun _ => 0 := by
    rw [List.map_map]
    rfl
  have hedges : (c.arrange config sizes shapes ranking
      (c.layering config sizes shapes named ranking)).edges.map (·.routingCount) =
      r.layering.chains.map (·.length - 2) ++ c.loops.map fun _ => 0 := by
    change (c.routes shapes ranking.reversed r).map (·.routingCount) = _
    rw [routes, List.map_append]
    exact congrArg₂ (· ++ ·) hlinks hloops
  have hsum : ((c.arrange config sizes shapes ranking
      (c.layering config sizes shapes named ranking)).edges.map (·.routingCount)).sum =
      (r.layering.chains.map (·.length - 2)).sum := by
    rw [hedges, List.sum_append]
    simp
  have hsize := Layering.size_nodes_ofEdges config.virtualNodeWidth named
    (c.memberShapes config sizes shapes ranking.ranks)
    (ranking.oriented.arcs.map fun a => (a.source, a.target))
  have hmembers : (c.memberShapes config sizes shapes ranking.ranks).length = c.members.length := by
    simp [memberShapes]
  rw [hsum, layering, hsize, hmembers, Nat.add_sub_cancel_left]
  rfl

end Component

/-! ### The edges of a scope -/

namespace ScopeLayout

variable {config : GraphConfig α} {sizes : Array (Size α)} {shapes : Array (EdgeShape α)}
    {s : Scope} {named after : Nat} {l : ScopeLayout α}

lemma placeAll_after {cs : List Component} (hs : s.WellFormed)
    (hcs : ∀ c ∈ cs, c ∈ Component.ofScope s) {p q : Progress α}
    (h : placeAll config sizes shapes cs p named = .ok (q, after)) :
    after + (p.edges.map (·.routingCount)).sum = named + (q.edges.map (·.routingCount)).sum := by
  induction cs generalizing p named with
  | nil =>
      obtain ⟨rfl, rfl⟩ := Prod.mk.inj (Except.ok.inj h)
      rfl
  | cons c cs ih =>
      rw [List.forall_mem_cons] at hcs
      rw [placeAll] at h
      split at h
      · cases h
      · next k next hlayout =>
          have hrest := ih hcs.2 h
          have hpart := Component.after_eq hs hcs.1 hlayout
          simp only [Progress.add, List.map_append, List.sum_append, List.map_map,
            Function.comp_def, RoutedEdge.routingCount_translate] at hrest
          omega

/-- Each routing point of a scope is passed by one edge. -/
lemma after_eq (hs : s.WellFormed) (h : ofScope config s sizes shapes named = .ok (l, after)) :
    after = named + (l.edges.map (·.routingCount)).sum := by
  rw [ofScope] at h
  simp only at h
  split at h
  · cases h
  · next q next hplace =>
      obtain ⟨rfl, rfl⟩ := Prod.mk.inj (Except.ok.inj h)
      rw [((byNumber_perm q.edges).map (·.routingCount)).sum_eq]
      simpa using placeAll_after hs (fun _ hc => hc) hplace

end ScopeLayout

/-! ### The edges of all scopes -/

namespace Interiors

variable {config : GraphConfig α} {shapes : Shapes α} {c : Containment α} {i j : Interiors α}

/-- The ways of edges in scopes that are laid out. -/
def ways (i : Interiors α) (containers : List (Option Nat)) : List (RoutedEdge α) :=
  containers.flatMap fun x => (i.scope x).edges

lemma ways_enter {before : List (Option Nat)} {container : Option Nat} (h : container ∉ before)
    (l : ScopeLayout α) (named : Nat) :
    (i.enter config shapes container l named).ways before = i.ways before := by
  refine List.flatMap_congr fun x hx => ?_
  have hne : container ≠ x := fun heq => h (heq ▸ hx)
  rw [scope_enter_ne hne]

/-- Laying out further scopes names the routing points that their edges pass. -/
lemma named_layAll (hc : c.Sound) {before todo : List (Option Nat)}
    (horder : before ++ todo = c.order) (hi : i.Sized c)
    (hnamed : i.named = ((i.ways before).map (·.routingCount)).sum)
    (h : layAll config shapes (todo.map c.scopeOf) i = .ok j) :
    j.named = ((j.ways c.order).map (·.routingCount)).sum := by
  induction todo generalizing before i with
  | nil =>
      obtain rfl := Except.ok.inj h
      rw [List.append_nil] at horder
      rw [hnamed, horder]
  | cons container todo ih =>
      rw [List.map_cons, layAll] at h
      split at h
      · cases h
      · next l after hscope =>
          have hcontainer : c.IsContainer container := by
            rw [← hc.mem_order, ← horder]
            simp
          have hnotMem : container ∉ before := by
            have hnodup := hc.nodup_order
            rw [← horder, List.nodup_append] at hnodup
            exact fun hmem => hnodup.2.2 container hmem container (by simp) rfl
          have hnext : before ++ [container] ++ todo = c.order := by
            rw [← horder, List.append_assoc, List.singleton_append]
          refine ih hnext (hi.enter container l after) ?_ h
          have hafter := ScopeLayout.after_eq (c.wellFormed_scopeOf container) hscope
          rw [ways, List.flatMap_append, List.map_append, List.sum_append, ← ways,
            ways_enter hnotMem, ← hnamed, List.flatMap_singleton, scope_enter_self hi hcontainer]
          exact hafter

/-- **Each routing point that gets a name is passed by one edge.** -/
lemma named_eq (hc : c.Sound)
    (h : ofScopes config shapes c.clusters.length c.orderedScopes = .ok i) :
    i.named = ((i.ways c.order).map (·.routingCount)).sum := by
  rw [ofScopes, Containment.orderedScopes_eq] at h
  exact named_layAll hc (List.nil_append _) (sized_empty hc) rfl h

variable (hsettled : ∀ x, c.IsContainer x → i.Settled config shapes c x)
include hsettled

/-- No edge is drawn twice. -/
lemma nodup_ways (hc : c.Sound) : ((i.ways c.order).map (·.edge)).Nodup := by
  rw [ways, List.map_flatMap, List.nodup_flatMap]
  refine ⟨fun x hx => ?_, hc.nodup_order.imp_of_mem fun {x y} hx hy hne n hn hn' => hne ?_⟩
  · obtain ⟨_, _, hscope⟩ := (hsettled x (hc.mem_order.mp hx)).scope
    exact ScopeLayout.nodup_edges (c.wellFormed_scopeOf x) (c.nodup_edges_scopeOf x) hscope
  · -- an edge runs in the innermost scope around its ends only
    obtain ⟨_, _, hscope⟩ := (hsettled x (hc.mem_order.mp hx)).scope
    obtain ⟨_, _, hscope'⟩ := (hsettled y (hc.mem_order.mp hy)).scope
    obtain ⟨w, hw, rfl⟩ := List.mem_map.mp hn
    obtain ⟨w', hw', heq⟩ := List.mem_map.mp hn'
    obtain ⟨e, he, hedge⟩ := ScopeLayout.exists_edge_of_mem (c.wellFormed_scopeOf x) hscope hw
    obtain ⟨e', he', hedge'⟩ := ScopeLayout.exists_edge_of_mem (c.wellFormed_scopeOf y) hscope' hw'
    obtain ⟨s, t, hends, hx, -⟩ := Containment.of_mem_edges he
    obtain ⟨s', t', hends', hy, -⟩ := Containment.of_mem_edges he'
    rw [hedge] at hends
    rw [hedge', heq, hends] at hends'
    obtain ⟨rfl, rfl⟩ : s = s' ∧ t = t' := by simpa using hends'
    exact hx.symm.trans hy

/-- The edges that are drawn have both ends. -/
lemma ends_of_mem_ways (hc : c.Sound) {w : RoutedEdge α} (hw : w ∈ i.ways c.order) :
    ∃ s t, c.ends[w.edge]? = some ⟨some s, some t⟩ := by
  obtain ⟨x, hx, hw⟩ := List.mem_flatMap.mp hw
  obtain ⟨_, _, hscope⟩ := (hsettled x (hc.mem_order.mp hx)).scope
  obtain ⟨e, he, hedge⟩ := ScopeLayout.exists_edge_of_mem (c.wellFormed_scopeOf x) hscope hw
  obtain ⟨s, t, hends, -⟩ := Containment.of_mem_edges he
  exact ⟨s, t, hedge ▸ hends⟩

/-- An edge with both ends is drawn. -/
lemma mem_ways_of_ends (hc : c.Sound) {n s t : Nat} (hn : c.ends[n]? = some ⟨some s, some t⟩) :
    n ∈ (i.ways c.order).map (·.edge) := by
  obtain ⟨e, he, rfl⟩ := hc.exists_scopeEdge hn
  have hcontainer := hc.isContainer_common s t
  obtain ⟨_, _, hscope⟩ := (hsettled _ hcontainer).scope
  obtain ⟨w, hw, hedge⟩ := ScopeLayout.exists_routed (c.wellFormed_scopeOf _) hscope he
  exact List.mem_map.mpr ⟨w, List.mem_flatMap.mpr ⟨_, hc.mem_order.mpr hcontainer, hw⟩, hedge⟩

/-- The way that an edge gets is the one drawn for it in its scope. -/
lemma routingCount_edge? (hc : c.Sound) {w way : RoutedEdge α} (hw : w ∈ i.ways c.order)
    (hway : (Placed.ofInteriors c c.orderedScopes i).edge? w.edge = some way) :
    way.kind = w.kind ∧ way.routingCount = w.routingCount := by
  obtain ⟨x, hx, w', hw', hedge, rfl⟩ := Placed.traced_ofInteriors hc i _ way hway
  have hmem : w' ∈ i.ways c.order :=
    List.mem_flatMap.mpr ⟨x, List.mem_reverse.mp hx, hw'⟩
  obtain rfl := List.inj_on_of_nodup_map (nodup_ways hsettled hc) hmem hw hedge
  exact ⟨rfl, RoutedEdge.routingCount_translate _ _⟩

end Interiors

/-! ### Ranks -/

namespace Component

variable {config : GraphConfig α} {sizes : Array (Size α)} {shapes : Array (EdgeShape α)}
    {s : Scope} {c : Component} {named after : Nat} {l : ComponentLayout α}

omit [Scalar α] in
/-- Turning arcs round does not change their lengths. -/
lemma map_length_orient (g : Digraph) (reversed : List Nat) :
    (g.orient reversed).arcs.map Arc.length = g.arcs.map Arc.length := by
  refine List.ext_getElem? fun i => ?_
  rw [List.getElem?_map, Digraph.getElem?_orient, List.getElem?_map]
  cases g.arcs[i]? with
  | none => rfl
  | some a =>
      simp only [Option.map_some]
      split <;> rfl

/-- No rank of a part is larger than the lengths of its edges together. -/
lemma rank_le (hs : s.WellFormed) (hc : c ∈ ofScope s)
    (h : c.layout config sizes shapes named = .ok (l, after)) {j : Nat}
    (hj : j < c.members.length) :
    l.rank j ≤ (c.links.map fun e => lengthOf shapes e.edge).sum := by
  obtain ⟨ranks, hok, hgreatest, -⟩ := layout_eq_ok config sizes shapes hs hc named
  obtain ⟨rfl, -⟩ := Prod.mk.inj (Except.ok.inj (h.symm.trans hok))
  obtain ⟨p, hp, hlength⟩ := (hgreatest j hj).1
  have hacyclic := (Digraph.isTopological_finished (wellFormed_digraph shapes hs hc)
    (loopless_digraph shapes hs hc)).acyclic
  rw [← hlength]
  refine (hp.pathLength_le hacyclic).trans (le_of_eq ?_)
  rw [map_length_orient, arcs_digraph, List.map_map]
  rfl

end Component

namespace Model

variable {s : Setting α} {m : Model α} {i : Interiors α}

lemma lengthOf_shapes (s : Setting α) (m : Model α) (n : Nat) :
    Component.lengthOf (m.shapes s).edges n = (m.edges[n]?.map (·.length)).getD 0 := by
  rw [Component.lengthOf, getElem?_edges_shapes, Option.map_map]
  rfl

/-- **No rank of a graph is larger than the lengths of all edges together.** -/
lemma rank_le (hi : m.interiors s = .ok i) {container : Option Nat}
    (hcontainer : (Containment.ofModel m).IsContainer container) (v : Nat) :
    ((i.scope container).member v).rank ≤ (m.edges.map (·.length)).sum := by
  have hsound := Containment.sound_ofModel m
  have hsettled := Interiors.settled_of_ok hsound hi
  set c := Containment.ofModel m
  obtain ⟨_, _, hscope⟩ := (hsettled container hcontainer).scope
  have hwell := c.wellFormed_scopeOf container
  have hsize : (i.sizes (m.shapes s) (c.scopeOf container)).size =
      (c.scopeOf container).members.length := by
    simp [Interiors.sizes]
  by_cases hv : v < (c.scopeOf container).members.length
  · obtain ⟨part, hpart, hvpart, _, _, k, offset, hlayout, hmoved⟩ :=
      ScopeLayout.exists_part_of_member hwell hsize hscope hv
    obtain ⟨j, hj⟩ := List.mem_iff_getElem?.mp hvpart
    obtain ⟨place, hplace, hmember⟩ := hmoved j v hj
    have hrank : ((i.scope container).member v).rank = k.rank j := by
      rw [hmember, ComponentLayout.rank, hplace]
      rfl
    rw [hrank, ← sum_range_getElem?]
    refine (Component.rank_le hwell hpart hlayout (List.getElem?_eq_some_iff.mp hj).1).trans ?_
    have hlinks : part.links.Sublist (c.scopeOf container).edges := by
      obtain ⟨root, -, -, -, hedges⟩ := Component.exists_root hpart
      rw [Component.links, hedges]
      exact List.filter_sublist.trans List.filter_sublist
    refine sum_map_le_sum_range ((hlinks.map _).nodup (c.nodup_edges_scopeOf container))
      (fun e he => ?_) fun e _ => (lengthOf_shapes s m e.edge).symm
    obtain ⟨_, _, hends, -⟩ := Containment.of_mem_edges (hlinks.subset he)
    simpa [c, Containment.ofModel] using (List.getElem?_eq_some_iff.mp hends).1
  · -- there is no such member
    have hnone : (i.scope container).members[v]? = none := by
      rw [Array.getElem?_eq_none]
      rw [ScopeLayout.size_members hwell hscope, hsize]
      omega
    rw [ScopeLayout.member, Array.getD_eq_getD_getElem?, hnone]
    exact Nat.zero_le _

end Model

/-! ### The edges of a drawing -/

namespace Model

variable {s : Setting α} {m : Model α} {i : Interiors α} {l : Layout α}

/-- An edge that is drawn by its way passes as many routing points as the way does. -/
lemma routingCount_edge (d : Direction) (index : Nat) (e : Edge)
    (label : Option (MeasuredText α)) (way : RoutedEdge α) (source target : Bounds α)
    (offset : Point α) :
    ((Layout.edge d index e label ⟨way.kind, edgePoints way source target, way.reversed,
      way.label⟩).translate offset).routingCount = way.routingCount := by
  rw [EdgeGeometry.routingCount, RoutedEdge.routingCount, kind_translate_edge,
    length_points_translate_edge]
  split
  · next hkind =>
      have hkind : way.kind = .normal := hkind
      obtain ⟨first, last, hpoints⟩ := exists_edgePoints (by rw [hkind]; decide) source target
      simp [hpoints]
  · rfl

/-- An edge with a way is drawn by it. -/
lemma routingCount_of_way (hi : m.interiors s = .ok i)
    (hl : Layout.ofContainment s m (Containment.ofModel m) = .ok l) (offset : Point α) {index : Nat}
    {e : Edge} (he : m.edges[index]? = some e) {n k : Nat}
    (hsource : Declared.indexOf? Node.id m.distinctNodes e.source = some n)
    (htarget : Declared.indexOf? Node.id m.distinctNodes e.target = some k) :
    ∃ way, (m.placed i).edge? index = some way ∧
      (l.translate offset).edges[index]?.map (·.routingCount) = some way.routingCount := by
  obtain ⟨line, hline, hedge⟩ := exists_line hi hl he
  rw [hsource, htarget] at hline
  obtain ⟨way, hway, rfl⟩ := Line.of_ofEnds hline
  refine ⟨way, hway, ?_⟩
  rw [Layout.translate, List.getElem?_map, hedge, Option.map_some, Option.map_some,
    routingCount_edge]

/-- An edge that lacks an end passes no routing points. -/
lemma routingCount_of_missing (hi : m.interiors s = .ok i)
    (hl : Layout.ofContainment s m (Containment.ofModel m) = .ok l) (offset : Point α) {index : Nat}
    {e : Edge} (he : m.edges[index]? = some e)
    (hmissing : ¬ (m.HasNode e.source ∧ m.HasNode e.target)) :
    (l.translate offset).edges[index]?.map (·.routingCount) = some 0 := by
  obtain ⟨line, hline, hedge⟩ := exists_line hi hl he
  rw [Line.ofEnds_of_missing (by rwa [← hasNode_iff, ← hasNode_iff])] at hline
  obtain rfl := Except.ok.inj hline
  rw [Layout.translate, List.getElem?_map, hedge, Option.map_some, Option.map_some]
  rfl

lemma length_edges_translate (hi : m.interiors s = .ok i)
    (hl : Layout.ofContainment s m (Containment.ofModel m) = .ok l) (offset : Point α) :
    (l.translate offset).edges.length = m.edges.length := by
  rw [Layout.translate, List.length_map, length_edges hi hl]

/-- **The routing points that get names are those that the drawn edges pass.** -/
lemma named_eq (hi : m.interiors s = .ok i)
    (hl : Layout.ofContainment s m (Containment.ofModel m) = .ok l) (offset : Point α) :
    i.named = ((l.translate offset).edges.map (·.routingCount)).sum := by
  have hsound := Containment.sound_ofModel m
  have hsettled := Interiors.settled_of_ok hsound hi
  rw [Interiors.named_eq hsound hi, ← sum_range_getElem? (l.translate offset).edges,
    length_edges_translate hi hl]
  refine sum_map_eq_sum_range (Interiors.nodup_ways hsettled hsound) (fun w hw => ?_)
    (fun w hw => ?_) fun n hn hnone => ?_
  · obtain ⟨_, _, hw⟩ := Interiors.ends_of_mem_ways hsettled hsound hw
    simpa [Containment.ofModel] using (List.getElem?_eq_some_iff.mp hw).1
  · obtain ⟨n, k, hw'⟩ := Interiors.ends_of_mem_ways hsettled hsound hw
    have hlt : w.edge < m.edges.length := by
      simpa [Containment.ofModel] using (List.getElem?_eq_some_iff.mp hw').1
    have he := List.getElem?_eq_getElem hlt
    obtain ⟨hsource, htarget⟩ :=
      Ends.mk.inj (Option.some.inj ((Containment.getElem?_ends he).symm.trans hw'))
    obtain ⟨way, hway, hcount⟩ := routingCount_of_way hi hl offset he hsource htarget
    rw [hcount, Option.getD_some]
    exact (Interiors.routingCount_edge? hsettled hsound hw hway).2
  · have he := List.getElem?_eq_getElem hn
    rw [routingCount_of_missing hi hl offset he, Option.getD_some]
    rintro ⟨hsource, htarget⟩
    obtain ⟨a, ha⟩ := Option.isSome_iff_exists.mp (hasNode_iff.mp hsource)
    obtain ⟨b, hb⟩ := Option.isSome_iff_exists.mp (hasNode_iff.mp htarget)
    have hboth := Containment.getElem?_ends he
    rw [ha, hb] at hboth
    exact hnone (Interiors.mem_ways_of_ends hsettled hsound hboth)

omit [Scalar α] in
/-- An edge counts for as many elements as its length says, but at least for one. -/
lemma elementCount_eq (m : Model α) :
    m.elementCount =
      m.nodes.length + m.clusters.length + (m.edges.map fun e => max e.length 1).sum := by
  have hfold : ∀ edges : List Edge, edges.foldr (fun e n => max e.length 1 + n) 0 =
      (edges.map fun e => max e.length 1).sum := by
    intro edges
    induction edges with
    | nil => rfl
    | cons e edges ih => rw [List.foldr_cons, ih, List.map_cons, List.sum_cons]
  rw [elementCount, hfold]

/-- No edge passes more routing points than the lengths of all edges together. -/
lemma routingCount_le (hi : m.interiors s = .ok i)
    (hl : Layout.ofContainment s m (Containment.ofModel m) = .ok l) (offset : Point α)
    {g : EdgeGeometry α} (hg : g ∈ (l.translate offset).edges) :
    g.routingCount ≤ (m.edges.map (·.length)).sum := by
  obtain ⟨index, hindex⟩ := List.mem_iff_getElem?.mp hg
  have hlt : index < m.edges.length :=
    length_edges_translate hi hl offset ▸ (List.getElem?_eq_some_iff.mp hindex).1
  have hdepicts := depicts hi hl offset (List.getElem?_eq_getElem hlt) hindex
  rw [EdgeGeometry.routingCount]
  split
  · next hkind =>
      have hcontainer := (Containment.sound_ofModel m).isContainer_common
        (m.nodeNumber m.edges[index].source) (m.nodeNumber m.edges[index].target)
      have hsource : m.rankIn i m.edges[index] m.edges[index].source ≤ _ := rank_le hi hcontainer _
      have htarget : m.rankIn i m.edges[index] m.edges[index].target ≤ _ := rank_le hi hcontainer _
      rw [(hdepicts.normal hkind).1]
      omega
  · exact Nat.zero_le _

/-- There are no more routing points than elements if no edge spans more ranks than it counts
for. -/
lemma named_le_elementCount (hi : m.interiors s = .ok i)
    (hl : Layout.ofContainment s m (Containment.ofModel m) = .ok l) (offset : Point α)
    (hspans : ∀ (index : Nat) (e : Edge) (g : EdgeGeometry α), m.edges[index]? = some e →
      (l.translate offset).edges[index]? = some g → g.kind = .normal →
      g.points.length - 1 ≤ max e.length 1) : i.named ≤ m.elementCount := by
  have hlength := length_edges_translate hi hl offset
  have hle : ((l.translate offset).edges.map (·.routingCount)).sum ≤
      (m.edges.map fun e => max e.length 1).sum := by
    refine List.Forall₂.sum_le_sum (List.forall₂_iff_get.mpr
      ⟨by simp [hlength], fun k hk hk' => ?_⟩)
    rw [List.length_map] at hk hk'
    have hspan := hspans k _ _ (List.getElem?_eq_getElem hk') (List.getElem?_eq_getElem hk)
    simp only [List.get_eq_getElem, List.getElem_map, EdgeGeometry.routingCount]
    split
    · next hkind =>
        have := hspan hkind
        omega
    · exact Nat.zero_le _
  rw [named_eq hi hl offset, elementCount_eq]
  omega

/-- Each edge passes at most as many routing points as all edges are long. -/
lemma named_le (hi : m.interiors s = .ok i)
    (hl : Layout.ofContainment s m (Containment.ofModel m) = .ok l) :
    i.named ≤ m.edges.length * (m.edges.map (·.length)).sum := by
  rw [named_eq hi hl Point.origin, ← length_edges_translate hi hl Point.origin,
    ← List.length_map (fun g : EdgeGeometry α => g.routingCount), ← smul_eq_mul]
  refine List.sum_le_card_nsmul _ _ fun n hn => ?_
  obtain ⟨g, hg, rfl⟩ := List.mem_map.mp hn
  exact routingCount_le hi hl _ hg

omit [Scalar α] in
/-- Neither the edges nor their lengths together are more than the elements. -/
lemma length_edges_le_elementCount (m : Model α) :
    m.edges.length ≤ m.elementCount ∧ (m.edges.map (·.length)).sum ≤ m.elementCount := by
  have hcount := m.elementCount_eq
  have hedges : m.edges.length ≤ (m.edges.map fun e => max e.length 1).sum := by
    rw [← List.length_map (fun e : Edge => max e.length 1)]
    refine List.length_le_sum_of_one_le _ fun n hn => ?_
    obtain ⟨e, -, rfl⟩ := List.mem_map.mp hn
    exact le_max_right _ _
  have hlengths : (m.edges.map (·.length)).sum ≤ (m.edges.map fun e => max e.length 1).sum :=
    List.sum_le_sum fun e _ => le_max_left _ _
  omega

end Model

end Drafting.Graph

namespace Drafting.Diagram

open Drafting.Graph

/-- A graph with a drawing has no more elements than the limit says. -/
lemma elementCount_le {α : Type} [Scalar α] {s : Setting α} {title caption : Option String}
    {m : Graph.Model α} {drawing : Drawing α}
    (h : layout s ⟨title, caption, .graph m⟩ = .ok drawing) :
    m.elementCount ≤ s.config.limits.maxElements := by
  obtain ⟨hvalid, l, hl, -⟩ := of_layout_graph h
  rw [layout_graph_eq hvalid title caption hl] at h
  by_contra hlt
  rw [if_pos (Nat.not_le.mp hlt)] at h
  cases h

/-- **What the limit on elements says about routing points.**  The routing points of all scopes are
those that the drawn edges pass.  They are no more than the elements of the graph if no edge spans
more ranks than it counts for.  In any case no edge passes more of them than the lengths of all
edges together, so their number is bounded by the square of the limit. -/
theorem limit_bounds_routing_points {α : Type} [Scalar α] {s : Setting α}
    {title caption : Option String} {m : Graph.Model α} {drawing : Drawing α}
    (h : layout s ⟨title, caption, .graph m⟩ = .ok drawing) :
    m.elementCount ≤ s.config.limits.maxElements ∧
    ∃ i l, m.interiors s = .ok i ∧ drawing.graph? = some l ∧
      i.named = (l.edges.map (·.routingCount)).sum ∧
      ((∀ (index : Nat) (e : Edge) (g : EdgeGeometry α), m.edges[index]? = some e →
        l.edges[index]? = some g → g.kind = .normal → g.points.length - 1 ≤ max e.length 1) →
        i.named ≤ m.elementCount) ∧
      i.named ≤ m.edges.length * (m.edges.map (·.length)).sum ∧
      i.named ≤ s.config.limits.maxElements ^ 2 := by
  have hlimit := elementCount_le h
  obtain ⟨-, l, hl, rfl⟩ := of_layout_graph h
  obtain ⟨i, hi, -⟩ := Interiors.ofScopes_eq_ok s.config.graph (m.shapes s)
    (Containment.sound_ofModel m)
  have hbound := Graph.Model.named_le hi hl
  obtain ⟨hedges, hlengths⟩ := m.length_edges_le_elementCount
  refine ⟨hlimit, i, _, hi, rfl, Graph.Model.named_eq hi hl _,
    Graph.Model.named_le_elementCount hi hl _, hbound, hbound.trans ?_⟩
  rw [sq]
  exact Nat.mul_le_mul (hedges.trans hlimit) (hlengths.trans hlimit)

/-- Two edges in a row, neither of which is drawn out by the other: two routing points, which are no
more than the seven elements. -/
theorem routing_points_of_a_row :
    let s : Setting Rat := ⟨.standard, fun _ _ => ⟨10, 5⟩⟩
    let m : Graph.Model Rat :=
      { nodes := [{ id := "a" }, { id := "b" }, { id := "c" }]
        edges := [{ source := "a", target := "b", length := 3 }, { source := "b", target := "c" }] }
    ∃ drawing l i, layout s ⟨none, none, .graph m⟩ = .ok drawing ∧ drawing.graph? = some l ∧
      m.interiors s = .ok i ∧ i.named = (l.edges.map (·.routingCount)).sum ∧ i.named ≤ 7 := by
  intro s m
  have hread : ((layout s ⟨none, none, .graph m⟩).toOption.bind (·.graph?)).map
      (fun l => l.edges.map (·.points.length)) = some [4, 2] := by cbv
  obtain ⟨drawing, l, hok, hl, hpoints⟩ := exists_drawing_of_read hread
  obtain ⟨-, i, l', hi, hl', hnamed, hspans, -⟩ := limit_bounds_routing_points hok
  obtain rfl : l = l' := Option.some.inj (hl.symm.trans hl')
  refine ⟨drawing, l, i, hok, hl, hi, hnamed, hspans fun index e g he hg _ => ?_⟩
  have hlength : [4, 2][index]? = some g.points.length := by
    rw [← hpoints, List.getElem?_map, hg, Option.map_some]
  rcases index with _ | _ | index
  · obtain rfl := Option.some.inj he
    rw [← Option.some.inj hlength]
    decide
  · obtain rfl := Option.some.inj he
    rw [← Option.some.inj hlength]
    decide
  · cases hlength

/-- The limit does not bound the routing points themselves: one long edge draws out the two short
ones beside it, so that a graph of eight elements takes nine. -/
theorem routing_points_exceed_the_limit :
    let s : Setting Rat := ⟨{ Config.standard with limits := ⟨8, 64⟩ }, fun _ _ => ⟨10, 5⟩⟩
    let m : Graph.Model Rat :=
      { nodes := [{ id := "a" }, { id := "b" }]
        edges := [{ source := "a", target := "b", length := 4 }, { source := "a", target := "b" },
          { source := "a", target := "b" }] }
    ∃ drawing i, layout s ⟨none, none, .graph m⟩ = .ok drawing ∧ m.interiors s = .ok i ∧
      m.elementCount = s.config.limits.maxElements ∧ s.config.limits.maxElements < i.named := by
  intro s m
  have hread : ((layout s ⟨none, none, .graph m⟩).toOption.bind (·.graph?)).map
      (fun l => l.edges.length) = some 3 := by cbv
  obtain ⟨drawing, -, hok, -⟩ := exists_drawing_of_read hread
  have hnamed : (m.interiors s).toOption.map (·.named) = some 9 := by cbv
  cases hi : m.interiors s with
  | error e => simp [hi, Except.toOption] at hnamed
  | ok i =>
      rw [hi] at hnamed
      refine ⟨drawing, i, hok, rfl, rfl, ?_⟩
      rw [show i.named = 9 from Option.some.inj hnamed]
      decide

end Drafting.Diagram
