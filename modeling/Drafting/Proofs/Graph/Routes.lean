import Mathlib
import Drafting.Proofs.Graph.Chains
import Drafting.Proofs.Graph.ScopeLayouts

/-!
The ways of edges.

An edge between two ranks passes its routing points, an edge within a rank needs at most a detour,
and a loop is drawn whole.

* `RoutedEdge.Follows`: how an edge is drawn, and which points it passes.
* `Component.routing`: all that the ways of the edges of a part are taken from.
* `Component.exists_ranked`, `Component.exists_chain_of_links`: a part that is laid out is ranked,
  and the chains of its edges lead downward.
* `Component.exists_follows`, `ScopeLayout.exists_follows`: so are the edges of a part
  drawn, and those of a scope.
-/

namespace Drafting.Graph

variable {α : Type} [Scalar α]

/-- How an edge is drawn and which points it passes.  The ranks of its ends are `a` and
`b`; the nodes of the layered graph `g` are where `center` says, and `own` tells which of
its edges this one is. -/
structure RoutedEdge.Follows (w : RoutedEdge α) (g : Layering α) (center : Nat → Point α)
    (own : Nat → Prop) (loop : Prop) (a b : Nat) (labelled : Prop) : Prop where
  loop_iff : w.kind = .selfLoop ↔ loop
  flat_iff : w.kind = .flat ↔ ¬ loop ∧ a = b
  normal_iff : w.kind = .normal ↔ ¬ loop ∧ a ≠ b
  loop : w.kind = .selfLoop → w.reversed = false ∧ w.waypoints.length = 4
  flat : w.kind = .flat → w.waypoints.length = 0 ∨ w.waypoints.length = 2
  normal : w.kind = .normal → ∃ edge points, own edge ∧ g.Along edge (ranksBetween a b) points ∧
    w.waypoints = points.map center
  label : w.label.isSome ↔ labelled

namespace RoutedEdge.Follows

variable {w : RoutedEdge α} {g : Layering α} {center : Nat → Point α} {own : Nat → Prop}
  {loop : Prop} {a b : Nat} {labelled : Prop} (h : w.Follows g center own loop a b labelled)

include h

omit [Scalar α] in
/-- An edge with a way is a loop, lies within a rank or leads between ranks. -/
lemma resolved : w.kind ≠ .unresolved := by
  intro hkind
  by_cases hloop : loop
  · cases hkind.symm.trans (h.loop_iff.mpr hloop)
  · by_cases hranks : a = b
    · cases hkind.symm.trans (h.flat_iff.mpr ⟨hloop, hranks⟩)
    · cases hkind.symm.trans (h.normal_iff.mpr ⟨hloop, hranks⟩)

omit [Scalar α] in
/-- An edge between ranks passes one point on each rank between them. -/
lemma length_waypoints (hkind : w.kind = .normal) :
    w.waypoints.length = (a - b) + (b - a) - 1 := by
  obtain ⟨_, points, -, halong, hpoints⟩ := h.normal hkind
  rw [hpoints, List.length_map, halong.length_points]

/-- Moving an edge moves the points it passes. -/
lemma translate (v : Point α) :
    (w.translate v).Follows g (fun n => (center n).add v) own loop a b labelled where
  loop_iff := h.loop_iff
  flat_iff := h.flat_iff
  normal_iff := h.normal_iff
  loop hkind := ⟨(h.loop hkind).1, by simpa [RoutedEdge.translate] using (h.loop hkind).2⟩
  flat hkind := by simpa [RoutedEdge.translate] using h.flat hkind
  normal hkind := by
    obtain ⟨edge, points, hown, halong, hpoints⟩ := h.normal hkind
    refine ⟨edge, points, hown, halong, ?_⟩
    simp [RoutedEdge.translate, hpoints]
  label := by rw [← h.label, RoutedEdge.translate, Option.isSome_map]

end RoutedEdge.Follows

namespace Routing

variable {r : Routing α} {u v : Nat} {points : List Nat}

omit [Scalar α] in
/-- The gap that holds the text of an edge lies between the ranks of its ends. -/
lemma labelGap?_chain (g : Layering α) (u v : Nat) (points : List Nat) :
    labelGap? g (u :: (points ++ [v])) =
      if Layers.rankOf g u < Layers.rankOf g v then
        some (Layers.rankOf g u + (Layers.rankOf g v - Layers.rankOf g u - 1) / 2)
      else none := by
  simp [labelGap?, List.getLast?_cons]

/-- An edge between ranks has room for its text. -/
lemma isSome_gapLabel? {k : Nat} (hk : k ≤ points.length) (size : Size α) :
    (r.gapLabel? (u :: (points ++ [v])) (Layers.rankOf r.layering u + k) size).isSome := by
  have hlength : (u :: (points ++ [v])).length = points.length + 2 := by simp
  obtain ⟨x, hx⟩ : ∃ x, (u :: (points ++ [v]))[k]? = some x :=
    ⟨_, List.getElem?_eq_getElem (by omega)⟩
  obtain ⟨y, hy⟩ : ∃ y, (u :: (points ++ [v]))[k + 1]? = some y :=
    ⟨_, List.getElem?_eq_getElem (by omega)⟩
  simp only [gapLabel?, List.head?_cons, Option.map_some, Option.getD_some, Nat.add_sub_cancel_left,
    hx, hy, Option.isSome_some]

/-- **An edge between two members is drawn along its chain**, which leads downward; `a` and `b` are
the ranks of the members it leaves and enters. -/
lemma follows_link {own : Nat → Prop} {i a b : Nat} (hown : own i)
    (halong : r.layering.Along i (ranksBetween (Layers.rankOf r.layering u)
      (Layers.rankOf r.layering v)) points)
    (hle : Layers.rankOf r.layering u ≤ Layers.rankOf r.layering v) (edge source target : Nat)
    {reversed : Bool}
    (hends : (a, b) = if reversed then (Layers.rankOf r.layering v, Layers.rankOf r.layering u)
      else (Layers.rankOf r.layering u, Layers.rankOf r.layering v))
    (label : Option (Size α)) :
    (r.link (u :: (points ++ [v])) edge source target reversed label).Follows r.layering r.center
      own False a b label.isSome := by
  have heq : a = b ↔ Layers.rankOf r.layering u = Layers.rankOf r.layering v := by
    cases reversed with
    | false => rw [(Prod.mk.inj hends).1, (Prod.mk.inj hends).2]
    | true => rw [(Prod.mk.inj hends).1, (Prod.mk.inj hends).2, eq_comm]
  rw [link, labelGap?_chain]
  split
  · next gap hgap =>
      split at hgap
      · next hlt =>
          obtain rfl := Option.some.inj hgap
          have hne : a ≠ b := fun h => hlt.ne (heq.mp h)
          refine ⟨by simp [ranked], by simp [ranked, hne], by simp [ranked, hne], by simp [ranked],
            by simp [ranked], fun _ => ?_, ?_⟩
          · cases reversed with
            | false =>
                obtain ⟨rfl, rfl⟩ := Prod.mk.inj hends
                exact ⟨i, points, hown, halong, by simp [ranked]⟩
            | true =>
                obtain ⟨rfl, rfl⟩ := Prod.mk.inj hends
                rw [← reverse_ranksBetween hlt.ne]
                exact ⟨i, points.reverse, hown, halong.reverse, by simp [ranked]⟩
          · -- the middle gap is one that the chain crosses
            have hlength := halong.length_points
            cases label with
            | none => simp [ranked]
            | some size =>
                simp only [ranked, Option.bind_some, Option.isSome_some, iff_true]
                exact isSome_gapLabel? (by omega) size
      · cases hgap
  · next hgap =>
      split at hgap
      · cases hgap
      · next hnot =>
          have hab : a = b := heq.mpr (le_antisymm hle (Nat.not_lt.mp hnot))
          refine ⟨by simp [flat], by simp [flat, hab], by simp [flat, hab],
            by simp [flat], fun _ => ?_, by simp [flat], by simp [flat]⟩
          simp only [flat]
          split
          · exact Or.inl rfl
          · exact Or.inr rfl

/-- A loop is drawn whole. -/
lemma follows_selfLoop (r : Routing α) (own : Nat → Prop) (edge member a b : Nat)
    (label : Option (Size α)) :
    (r.selfLoop edge member label).Follows r.layering r.center own True a b label.isSome where
  loop_iff := by simp [selfLoop]
  flat_iff := by simp [selfLoop]
  normal_iff := by simp [selfLoop]
  loop _ := ⟨rfl, rfl⟩
  flat h := by simp [selfLoop] at h
  normal h := by simp [selfLoop] at h
  label := by simp [selfLoop]

end Routing

/-! ### The edges of a part -/

namespace Component

variable {config : GraphConfig α} {sizes : Array (Size α)} {shapes : Array (EdgeShape α)}
    {s : Scope} {c : Component} {named after : Nat} {l : ComponentLayout α}

/-- All that the ways of the edges of a ranked part are taken from. -/
def routing (config : GraphConfig α) (sizes : Array (Size α)) (shapes : Array (EdgeShape α))
    (c : Component) (named : Nat) (ranking : Ranking) : Routing α :=
  let g := c.layering config sizes shapes named ranking
  let layers := Layers.minimize g config.orderingPasses config.orderingHeuristic
  let gaps := c.gaps config shapes g
  let placement := Placement.ofLayers g layers config.nodeSpacing config.relaxationPasses gaps
  ⟨config, g, layers, placement, (c.place sizes ranking.ranks layers placement).toArray, gaps⟩

lemma rankOf_layering (ranking : Ranking) {j : Nat} (hj : j < c.members.length) :
    Layers.rankOf (c.layering config sizes shapes named ranking) j = ranking.ranks.getD j 0 := by
  rw [layering, Layering.rankOf_member (by simpa [memberShapes] using hj)]
  simp [memberShapes, hj]

/-- The edges of a part are drawn by their chains, its loops by themselves. -/
lemma mem_routes {reversed : List Nat} {r : Routing α} {w : RoutedEdge α}
    (h : w ∈ c.routes shapes reversed r) :
    (∃ i e chain, c.links[i]? = some e ∧ r.layering.chains[i]? = some chain ∧
      w = r.link chain e.edge (c.localIndex e.source) (c.localIndex e.target) (reversed.contains i)
        (labelOf shapes e.edge)) ∨
    ∃ e ∈ c.loops, w = r.selfLoop e.edge (c.localIndex e.source) (labelOf shapes e.edge) := by
  rcases List.mem_append.mp h with h | h
  · obtain ⟨i, hi, rfl⟩ := List.mem_mapIdx.mp h
    rw [List.length_zip, lt_min_iff] at hi
    refine Or.inl ⟨i, _, _, List.getElem?_eq_getElem hi.1, List.getElem?_eq_getElem hi.2, ?_⟩
    rw [List.getElem_zip]
  · obtain ⟨e, he, rfl⟩ := List.mem_map.mp h
    exact Or.inr ⟨e, he, rfl⟩

omit [Scalar α] in
/-- The arcs of a ranked part: those that are reversed are turned round. -/
lemma getElem?_oriented {i : Nat} {e : ScopeEdge} (he : c.links[i]? = some e)
    (reversed : List Nat) :
    ((c.digraph shapes).orient reversed).arcs[i]? =
      some (if i ∈ reversed then (c.arcOf shapes e).flip else c.arcOf shapes e) := by
  rw [Digraph.getElem?_orient, arcs_digraph, List.getElem?_map, he]
  rfl

/-- The chain of an arc of a ranked part. -/
lemma exists_chain_layering (config : GraphConfig α) (sizes : Array (Size α))
    (shapes : Array (EdgeShape α)) (named : Nat) {ranking : Ranking} {i : Nat} {arc : Arc}
    (harc : ranking.oriented.arcs[i]? = some arc) (hsource : arc.source < c.members.length)
    (htarget : arc.target < c.members.length)
    (hle : ranking.ranks.getD arc.source 0 ≤ ranking.ranks.getD arc.target 0) :
    let g := c.layering config sizes shapes named ranking
    Layers.rankOf g arc.source ≤ Layers.rankOf g arc.target ∧
      ∃ points, g.chains[i]? = some (arc.source :: (points ++ [arc.target])) ∧
        g.Along i (ranksBetween (Layers.rankOf g arc.source) (Layers.rankOf g arc.target))
          points := by
  intro g
  have hrise : Layers.rankOf g arc.source ≤ Layers.rankOf g arc.target := by
    rw [rankOf_layering ranking hsource, rankOf_layering ranking htarget]
    exact hle
  have hlength : (c.memberShapes config sizes shapes ranking.ranks).length = c.members.length := by
    simp [memberShapes]
  have hedge : (ranking.oriented.arcs.map fun a => (a.source, a.target))[i]? =
      some (arc.source, arc.target) := by
    rw [List.getElem?_map, harc]
    rfl
  refine ⟨hrise, ?_⟩
  rw [ranksBetween_of_le hrise]
  exact Layering.exists_chain hedge (hlength.symm ▸ hsource) (hlength.symm ▸ htarget)

/-- A part is ranked so that no edge leads upward once the reversed ones are turned round. -/
structure Ranked (c : Component) (shapes : Array (EdgeShape α)) (ranking : Ranking) : Prop where
  ok : Ranking.ofDigraph (α := α) (c.digraph shapes) = .ok ranking
  oriented : ranking.oriented = (c.digraph shapes).orient ranking.reversed
  respects : ∀ a ∈ ranking.oriented.arcs,
    ranking.ranks.getD a.source 0 ≤ ranking.ranks.getD a.target 0

/-- A part that is laid out is ranked. -/
lemma exists_ranked (hs : s.WellFormed) (hc : c ∈ ofScope s)
    (h : c.layout config sizes shapes named = .ok (l, after)) :
    ∃ ranking, c.Ranked shapes ranking ∧
      let g := c.layering config sizes shapes named ranking
      l = c.arrange config sizes shapes ranking g ∧
      after = named + (g.nodes.size - c.members.length) := by
  obtain ⟨ranks, hok, -, hrespects⟩ := Ranking.ofDigraph_eq_ok (α := α)
    (wellFormed_digraph shapes hs hc) (loopless_digraph shapes hs hc)
  refine ⟨_, ⟨hok, rfl, fun a ha => (Nat.le_add_right _ _).trans (hrespects a ha)⟩, ?_⟩
  rw [layout, hok] at h
  exact ⟨(Prod.mk.inj (Except.ok.inj h)).1.symm, (Prod.mk.inj (Except.ok.inj h)).2.symm⟩

/-- The chain of an edge between two members of a ranked part leads downward; it is turned round if
the edge is reversed. -/
lemma exists_chain_of_links (hs : s.WellFormed) (hc : c ∈ ofScope s) {ranking : Ranking}
    (hranked : c.Ranked shapes ranking) {i : Nat} {e : ScopeEdge} {chain : List Nat}
    (he : c.links[i]? = some e)
    (hchain : (c.layering config sizes shapes named ranking).chains[i]? = some chain) :
    let rank := Layers.rankOf (c.layering config sizes shapes named ranking)
    ∃ u v points, chain = u :: (points ++ [v]) ∧ rank u ≤ rank v ∧
      (c.layering config sizes shapes named ranking).Along i (ranksBetween (rank u) (rank v))
        points ∧
      (rank (c.localIndex e.source), rank (c.localIndex e.target)) =
        if ranking.reversed.contains i then (rank v, rank u) else (rank u, rank v) := by
  have hmem := (mem_links.mp (List.mem_of_getElem? he)).1
  have hsource : c.localIndex e.source < c.members.length :=
    List.idxOf_lt_length_iff.mpr (source_mem hs hc hmem)
  have htarget : c.localIndex e.target < c.members.length :=
    List.idxOf_lt_length_iff.mpr (target_mem hs hc hmem)
  have harc : ranking.oriented.arcs[i]? = some (if i ∈ ranking.reversed then
      (c.arcOf shapes e).flip else c.arcOf shapes e) := by
    rw [hranked.oriented]
    exact getElem?_oriented he _
  have hle := hranked.respects _ (List.mem_of_getElem? harc)
  rw [List.contains_eq_mem]
  by_cases hreversed : i ∈ ranking.reversed
  · rw [if_pos hreversed] at harc hle
    obtain ⟨hrise, points, hpoints, halong⟩ :=
      exists_chain_layering config sizes shapes named harc htarget hsource hle
    refine ⟨_, _, points, Option.some.inj (hchain.symm.trans hpoints), hrise, halong, ?_⟩
    rw [decide_eq_true hreversed]
    rfl
  · rw [if_neg hreversed] at harc hle
    obtain ⟨hrise, points, hpoints, halong⟩ :=
      exists_chain_layering config sizes shapes named harc hsource htarget hle
    refine ⟨_, _, points, Option.some.inj (hchain.symm.trans hpoints), hrise, halong, ?_⟩
    rw [decide_eq_false hreversed]
    rfl

/-- An edge between two members of a ranked part is drawn along its chain. -/
lemma follows_of_links (hs : s.WellFormed) (hc : c ∈ ofScope s) {ranking : Ranking}
    (hranked : c.Ranked shapes ranking) {i : Nat} {e : ScopeEdge} {chain : List Nat}
    (he : c.links[i]? = some e)
    (hchain : (c.layering config sizes shapes named ranking).chains[i]? = some chain)
    (label : Option (Size α)) :
    let r := c.routing config sizes shapes named ranking
    (r.link chain e.edge (c.localIndex e.source) (c.localIndex e.target)
      (ranking.reversed.contains i) label).Follows r.layering r.center
      (fun j => c.links[j]?.map (·.edge) = some e.edge) False
      (Layers.rankOf r.layering (c.localIndex e.source))
      (Layers.rankOf r.layering (c.localIndex e.target)) label.isSome := by
  intro r
  have hown : c.links[i]?.map (·.edge) = some e.edge := by rw [he, Option.map_some]
  obtain ⟨u, v, points, rfl, hrise, halong, hends⟩ :=
    exists_chain_of_links hs hc hranked he hchain
  exact Routing.follows_link (r := r) hown halong hrise e.edge _ _ hends label

/-- **How the edges of a part are drawn.**  Its members are around the centers of their nodes. -/
lemma exists_follows (hs : s.WellFormed) (hc : c ∈ ofScope s)
    (h : c.layout config sizes shapes named = .ok (l, after)) :
    ∃ ranking, Ranking.ofDigraph (α := α) (c.digraph shapes) = .ok ranking ∧
      let r := c.routing config sizes shapes named ranking
      (∀ j v, c.members[j]? = some v →
        l.members[j]?.map (·.bounds) = some (Bounds.around (r.center j) (sizeOf sizes v))) ∧
      ∀ w ∈ l.edges, ∃ e ∈ c.edges, w.edge = e.edge ∧
        w.Follows r.layering r.center (fun j => c.links[j]?.map (·.edge) = some e.edge)
          (e.source = e.target) (l.rank (c.localIndex e.source)) (l.rank (c.localIndex e.target))
          (labelOf shapes e.edge).isSome := by
  obtain ⟨ranking, hranked, rfl, -⟩ := exists_ranked hs hc h
  refine ⟨ranking, hranked.ok, ?_⟩
  intro r
  refine ⟨fun j v hv => ?_, fun w hw => ?_⟩
  · simp only [arrange, place, List.getElem?_mapIdx, hv, Option.map_some]
    rfl
  have hrank : ∀ v ∈ c.members, (c.arrange config sizes shapes ranking
      (c.layering config sizes shapes named ranking)).rank (c.localIndex v) =
      Layers.rankOf r.layering (c.localIndex v) := by
    intro v hv
    have hlt : c.localIndex v < c.members.length := List.idxOf_lt_length_iff.mpr hv
    exact (rank_arrange _ _ hlt).trans (rankOf_layering ranking hlt).symm
  have hw : w ∈ c.routes shapes ranking.reversed r := hw
  rcases mem_routes hw with ⟨i, e, chain, he, hchain, rfl⟩ | ⟨e, he, rfl⟩
  · obtain ⟨hmem, hne⟩ := mem_links.mp (List.mem_of_getElem? he)
    refine ⟨e, hmem, edge_link .., ?_⟩
    rw [hrank _ (source_mem hs hc hmem), hrank _ (target_mem hs hc hmem), eq_false hne]
    exact follows_of_links hs hc hranked he hchain _
  · obtain ⟨hmem, heq⟩ := mem_loops.mp he
    refine ⟨e, hmem, rfl, ?_⟩
    rw [eq_true heq]
    exact Routing.follows_selfLoop r _ _ _ _ _ _

end Component

/-! ### The edges of a scope -/

namespace ScopeLayout

/-- A member of a scope. -/
def member (l : ScopeLayout α) (v : Nat) : PlacedMember α := l.members.getD v ⟨Bounds.zero, 0, 0⟩

variable {config : GraphConfig α} {sizes : Array (Size α)} {shapes : Array (EdgeShape α)}
    {s : Scope} {parts : List (Component × ComponentLayout α)} {p : Progress α}

lemma getD_members_addAll_of_notMem {v : Nat} (hv : ∀ part ∈ parts, v ∉ part.1.members)
    (d : PlacedMember α) :
    (p.addAll config parts).members.getD v d = p.members.getD v d := by
  induction parts generalizing p with
  | nil => rfl
  | cons part parts ih =>
      rw [List.forall_mem_cons] at hv
      exact (ih hv.2).trans (getD_members_add_of_notMem hv.1 d)

lemma size_members_addAll : (p.addAll config parts).members.size = p.members.size := by
  induction parts generalizing p with
  | nil => rfl
  | cons part parts ih => exact ih.trans (size_members_add config p part.1 part.2)

/-- Every member of a scope is placed. -/
lemma size_members (hs : s.WellFormed) {named after : Nat} {l : ScopeLayout α}
    (h : ofScope config s sizes shapes named = .ok (l, after)) : l.members.size = sizes.size := by
  obtain ⟨parts, -, rfl⟩ := exists_parts hs h
  exact size_members_addAll.trans Array.size_map

/-- The edges of a scope are those of its parts, each moved with the members of its part. -/
lemma exists_part_of_mem (hpairwise : parts.Pairwise fun a b => a.1.members.Disjoint b.1.members)
    (hparts : ∀ part ∈ parts, part.1.members.Nodup ∧ ∀ v ∈ part.1.members, v < p.members.size)
    {w : RoutedEdge α} (hw : w ∈ (p.addAll config parts).edges) :
    w ∈ p.edges ∨ ∃ part ∈ parts, ∃ offset, (∃ x ∈ part.2.edges, w = x.translate offset) ∧
      ∀ v m, (v, m) ∈ part.1.members.zip part.2.members →
        (p.addAll config parts).members.getD v ⟨Bounds.zero, 0, 0⟩ = m.translate offset := by
  induction parts generalizing p with
  | nil => exact Or.inl hw
  | cons first parts ih =>
      rw [List.pairwise_cons] at hpairwise
      rw [List.forall_mem_cons] at hparts
      have hsize := size_members_add config p first.1 first.2
      rcases ih hpairwise.2 (by rw [hsize]; exact hparts.2) hw with hw | ⟨part, hpart, hmoved⟩
      · rcases List.mem_append.mp hw with hw | hw
        · exact Or.inl hw
        · obtain ⟨x, hx, rfl⟩ := List.mem_map.mp hw
          refine Or.inr ⟨first, List.mem_cons_self, p.offset first.2, ⟨x, hx, rfl⟩, ?_⟩
          intro v m hm
          have hv := (List.of_mem_zip hm).1
          rw [addAll_cons, getD_members_addAll_of_notMem
            (fun part hpart hother => hpairwise.1 part hpart hv hother)]
          exact getD_members_add hparts.1.1 hm (hparts.1.2 v hv) _
      · exact Or.inr ⟨part, List.mem_cons_of_mem _ hpart, hmoved⟩

/-- **How the edges of a scope are drawn.**  They are moved with the members of the part they run
in. -/
lemma exists_follows (hs : s.WellFormed) (hsize : sizes.size = s.members.length)
    {named after : Nat} {l : ScopeLayout α}
    (h : ofScope config s sizes shapes named = .ok (l, after)) {w : RoutedEdge α}
    (hw : w ∈ l.edges) :
    ∃ c ∈ Component.ofScope s, ∃ named ranking offset,
      Ranking.ofDigraph (α := α) (c.digraph shapes) = .ok ranking ∧
      let r := c.routing config sizes shapes named ranking
      (∀ j v, c.members[j]? = some v → (l.member v).bounds =
        (Bounds.around (r.center j) (Component.sizeOf sizes v)).translate offset) ∧
      ∃ e ∈ s.edges, w.edge = e.edge ∧
        w.Follows r.layering (fun n => (r.center n).add offset)
          (fun j => c.links[j]?.map (·.edge) = some e.edge) (e.source = e.target)
          (l.member e.source).rank (l.member e.target).rank
          (Component.labelOf shapes e.edge).isSome := by
  obtain ⟨parts, hparts, rfl⟩ := exists_parts hs h
  have hmem : ∀ part ∈ parts, part.1 ∈ Component.ofScope s := fun _ => hparts.mem_ofScope
  rcases exists_part_of_mem hparts.pairwise_disjoint (fun _ => hparts.members_start hsize)
    (mem_edges_ofParts.mp hw) with hw | ⟨part, hpart, offset, ⟨x, hx, rfl⟩, hmoved⟩
  · exact absurd hw List.not_mem_nil
  · obtain ⟨before, _, hlayout⟩ := hparts.layouts part hpart
    obtain ⟨ranking, hranking, hboxes, hfollows⟩ :=
      Component.exists_follows hs (hmem part hpart) hlayout
    obtain ⟨e, he, hedge, hway⟩ := hfollows x hx
    have hmember : ∀ j v, part.1.members[j]? = some v → ∃ m, part.2.members[j]? = some m ∧
        m.bounds = Bounds.around
          ((part.1.routing config sizes shapes before ranking).center j)
          (Component.sizeOf sizes v) ∧
        (ofParts config sizes parts).member v = m.translate offset := by
      intro j v hv
      obtain ⟨m, hm, hbounds⟩ := Option.map_eq_some_iff.mp (hboxes j v hv)
      refine ⟨m, hm, hbounds, hmoved v m (List.mem_iff_getElem?.mpr ⟨j, ?_⟩)⟩
      exact List.getElem?_zip_eq_some.mpr ⟨hv, hm⟩
    have hrank : ∀ v ∈ part.1.members,
        ((ofParts config sizes parts).member v).rank = part.2.rank (part.1.localIndex v) := by
      intro v hv
      obtain ⟨m, hm, -, hplace⟩ := hmember _ v (List.getElem?_idxOf hv)
      rw [hplace, ComponentLayout.rank, Component.localIndex, hm]
      rfl
    refine ⟨part.1, hmem part hpart, before, ranking, offset, hranking, fun j v hv => ?_,
      e, Component.mem_edges_of_mem (hmem part hpart) he, hedge, ?_⟩
    · obtain ⟨m, -, hbounds, hplace⟩ := hmember j v hv
      rw [hplace, ← hbounds]
      rfl
    · rw [hrank _ (Component.source_mem hs (hmem part hpart) he),
        hrank _ (Component.target_mem hs (hmem part hpart) he)]
      exact hway.translate offset

end ScopeLayout

end Drafting.Graph
