import Mathlib
import Drafting.Proofs.Graph.Outcome
import Drafting.Proofs.Graph.Routes

/-!
Where edges are drawn.

An edge with both ends is drawn in the innermost scope around them, between the members that contain
them.

* `Containment.of_mem_edges`: which edges run in a scope, and between which members.
* `Containment.Sound.representative_injective`: different ends are in different members.
* `Placed.Traced`: the ways of edges come from scopes that were moved.
* `Placed.exists_follows`: the way of an edge with both ends.
-/

namespace Drafting.Graph

lemma getElem?_of_findIdx? {members : List Member} {m : Member} {i : Nat}
    (h : members.findIdx? (· == m) = some i) : members[i]? = some m := by
  obtain ⟨hi, hm, -⟩ := List.findIdx?_eq_some_iff_getElem.mp h
  rw [List.getElem?_eq_getElem hi, beq_iff_eq.mp hm]

/-- The position of an entry of a list without repeats. -/
lemma idxOf_of_getElem? {members : List Member} (hnodup : members.Nodup) {m : Member} {i : Nat}
    (h : members[i]? = some m) : members.idxOf m = i := by
  obtain ⟨hi, rfl⟩ := List.getElem?_eq_some_iff.mp h
  exact hnodup.idxOf_getElem i hi

namespace Containment

variable {α : Type} {c : Containment α}

/-- An edge of a scope connects the members that contain its ends, which are apart from there on. -/
lemma of_mem_edges {container : Option Nat} {e : ScopeEdge} (h : e ∈ (c.scopeOf container).edges) :
    ∃ s t, c.ends[e.edge]? = some ⟨some s, some t⟩ ∧ c.common s t = container ∧
      (c.scopeOf container).members[e.source]? = some (c.representative container s) ∧
      (c.scopeOf container).members[e.target]? = some (c.representative container t) := by
  obtain ⟨l, hl, he⟩ := List.mem_filterMap.mp h
  obtain ⟨hlifted, hcontainer⟩ := List.mem_filter.mp hl
  rw [liftFrom_eq_filterMap, List.mem_filterMap] at hlifted
  obtain ⟨⟨ends, index⟩, hends, hlift⟩ := hlifted
  rw [List.mk_mem_zipIdx_iff_getElem?] at hends
  obtain ⟨source, target⟩ := ends
  cases source with
  | none => cases hlift
  | some s =>
      cases target with
      | none => cases hlift
      | some t =>
          obtain rfl := Option.some.inj hlift
          obtain rfl := beq_iff_eq.mp hcontainer
          split at he
          · next a b ha hb =>
              obtain rfl := Option.some.inj he
              exact ⟨s, t, hends, rfl, getElem?_of_findIdx? ha, getElem?_of_findIdx? hb⟩
          · cases he

/-- Each of the clusters around a node lies in those that follow it. -/
lemma Sound.pairwise_chain (h : c.Sound) (n : Nat) :
    (c.chain n).Pairwise (Relation.TransGen (Clusters.LiesIn c.clusterParent)) := by
  rw [chain]
  cases hn : c.nodeCluster.getD n none with
  | none =>
      rw [Clusters.outward_none]
      exact List.Pairwise.nil
  | some k =>
      have hchain := Clusters.isChain_outward h.acyclic h.parents (h.clusters n k hn)
      exact (hchain.imp fun _ _ hlies => Relation.TransGen.single hlies).pairwise

/-- A cluster around both ends of an edge is no member of the scope that the edge runs in: the
innermost one is at most as far out. -/
lemma Sound.parent_ne_common (h : c.Sound) {s t k : Nat} (hs : k ∈ c.chain s) (ht : k ∈ c.chain t) :
    c.clusterParent.getD k none ≠ c.common s t := by
  intro hparent
  cases hcommon : c.common s t with
  | none =>
      rw [common, List.find?_eq_none] at hcommon
      exact hcommon k hs (by simpa using ht)
  | some y =>
      rw [hcommon] at hparent
      have hlies : Clusters.LiesIn c.clusterParent k y := hparent
      rw [common, List.find?_eq_some_iff_append] at hcommon
      obtain ⟨-, before, after, hsplit, hnone⟩ := hcommon
      have hpairwise := h.pairwise_chain s
      rw [hsplit] at hs hpairwise
      rcases List.mem_append.mp hs with hbefore | hafter
      · have hk := hnone k hbefore
        simp [ht] at hk
      · rcases List.mem_cons.mp hafter with rfl | hafter
        · exact h.acyclic k (.single hlies)
        · have hinner := (List.pairwise_cons.mp (List.pairwise_append.mp hpairwise).2.1).1 k hafter
          exact h.acyclic k (.head hlies hinner)

/-- A node is in a scope by itself or by a cluster around it. -/
lemma representative_cases (c : Containment α) (container : Option Nat) (n : Nat) :
    c.representative container n = .node n ∨
      ∃ k ∈ c.chain n, c.clusterParent.getD k none = container ∧
        c.representative container n = .cluster k := by
  rw [representative]
  split
  · exact Or.inl rfl
  · split
    · next k hk =>
        exact Or.inr ⟨k, List.mem_of_find?_eq_some hk, by simpa using List.find?_some hk, rfl⟩
    · exact Or.inl rfl

/-- **Different ends of an edge are in different members** of the innermost scope around them. -/
lemma Sound.representative_injective (h : c.Sound) {s t : Nat}
    (heq : c.representative (c.common s t) s = c.representative (c.common s t) t) : s = t := by
  rcases c.representative_cases (c.common s t) s with hs | ⟨k, hks, hparent, hs⟩
  · rcases c.representative_cases (c.common s t) t with ht | ⟨j, -, -, ht⟩
    · rw [hs, ht] at heq
      exact Member.node.inj heq
    · rw [hs, ht] at heq
      cases heq
  · rcases c.representative_cases (c.common s t) t with ht | ⟨j, hjt, -, ht⟩
    · rw [hs, ht] at heq
      cases heq
    · rw [hs, ht] at heq
      obtain rfl := Member.cluster.inj heq
      exact absurd hparent (h.parent_ne_common hks hjt)

end Containment

variable {α : Type} [Scalar α] {c : Containment α} {i : Interiors α} {p : Placed α}

namespace Placed

/-- The ways of edges come from scopes that were moved, and are moved as these are. -/
def Traced (i : Interiors α) (p : Placed α) (before : List (Option Nat)) : Prop :=
  ∀ n e, p.edge? n = some e → ∃ x ∈ before, ∃ w ∈ (i.scope x).edges,
    w.edge = n ∧ e = w.translate (p.origin i x)

omit [Scalar α] in
lemma edge?_enterEdges {edges : List (RoutedEdge α)} {n : Nat} {e : RoutedEdge α}
    (h : (p.enterEdges edges).edge? n = some e) :
    p.edge? n = some e ∨ e ∈ edges ∧ e.edge = n := by
  induction edges generalizing p with
  | nil => exact Or.inl h
  | cons first edges ih =>
      rcases ih h with h | ⟨hmem, hedge⟩
      · by_cases hn : first.edge = n
        · rw [edge?, enterEdge, Array.getD_eq_getD_getElem?, hn,
            Array.getElem?_setIfInBounds_self] at h
          split at h
          · obtain rfl := Option.some.inj h
            exact Or.inr ⟨List.mem_cons_self, hn⟩
          · cases h
        · rw [edge?, enterEdge, getD_setIfInBounds_ne hn] at h
          exact Or.inl h
      · exact Or.inr ⟨List.mem_cons_of_mem _ hmem, hedge⟩

lemma Traced.placeScope {before : List (Option Nat)} {container : Option Nat}
    (h : Traced i p before)
    (hfree : ∀ x ∈ before ++ [container], ∀ k, x = some k →
      Member.cluster k ∉ (c.scopeOf container).members) :
    Traced i (p.placeScope i (c.scopeOf container)) (before ++ [container]) := by
  intro n e he
  rw [placeScope_eq] at he
  rcases edge?_enterEdges he with he | ⟨he, hedge⟩
  · rw [edge?, edges_enterMembers] at he
    obtain ⟨x, hx, w, hw, hnumber, hmoved⟩ := h n e he
    have hbefore := List.mem_append_left [container] hx
    refine ⟨x, hbefore, w, hw, hnumber, ?_⟩
    rw [origin_placeScope (hfree x hbefore), hmoved]
  · obtain ⟨w, hw, rfl⟩ := List.mem_map.mp he
    have hlast := List.mem_append_right before (List.mem_singleton_self container)
    refine ⟨container, hlast, w, hw, hedge, ?_⟩
    rw [origin_placeScope (hfree container hlast)]

/-- Moving all scopes, the ways of edges come from them. -/
lemma traced_foldl (hc : c.Sound) {before todo : List (Option Nat)}
    (horder : before ++ todo = c.order.reverse) (h : Traced i p before) :
    Traced i ((todo.map c.scopeOf).foldl (placeScope i) p) c.order.reverse := by
  induction todo generalizing before p with
  | nil =>
      rw [List.append_nil] at horder
      exact horder ▸ h
  | cons container todo ih =>
      have hnext : before ++ [container] ++ todo = c.order.reverse := by
        rw [← horder, List.append_assoc, List.singleton_append]
      exact ih hnext (h.placeScope fun x hx => cluster_notMem_of_order hc horder hx)

lemma traced_ofInteriors (hc : c.Sound) (i : Interiors α) :
    Traced i (ofInteriors c c.orderedScopes i) c.order.reverse := by
  have hempty : Traced i (Placed.empty c) [] := by
    intro n e he
    rw [edge?, Placed.empty, Array.getD_eq_getD_getElem?, Array.getElem?_replicate] at he
    split at he <;> cases he
  rw [ofInteriors, Containment.orderedScopes_eq, ← List.map_reverse]
  exact traced_foldl hc (List.nil_append _) hempty

end Placed

/-- The rank of the member of a scope that contains a node. -/
def Interiors.rankIn (c : Containment α) (i : Interiors α) (container : Option Nat) (node : Nat) :
    Nat :=
  ((i.scope container).member
    ((c.scopeOf container).members.idxOf (c.representative container node))).rank

namespace Placed

variable {config : GraphConfig α} {shapes : Shapes α}

/-- A member of a scope that is laid out has its place inside it. -/
lemma mem_interior {container : Option Nat} (h : i.Settled config shapes c container) {v : Nat}
    {m : Member} (hm : (c.scopeOf container).members[v]? = some m) :
    (m, (i.scope container).member v) ∈ interior c i container := by
  obtain ⟨_, _, hscope⟩ := h.scope
  have hlt : v < (i.scope container).members.size := by
    rw [ScopeLayout.size_members (c.wellFormed_scopeOf container) hscope]
    simpa [Interiors.sizes] using (List.getElem?_eq_some_iff.mp hm).1
  refine List.mem_iff_getElem?.mpr ⟨v, List.getElem?_zip_eq_some.mpr ⟨hm, ?_⟩⟩
  rw [ScopeLayout.member, Array.getElem?_toList, Array.getD_eq_getD_getElem?,
    Array.getElem?_eq_getElem hlt, Option.getD_some]

/-- **The way of an edge with both ends.**  It is drawn in the innermost scope around them, and
moved with the members of the part of that scope that it runs in. -/
lemma exists_follows (hc : c.Sound)
    (hsettled : ∀ container, c.IsContainer container → i.Settled config shapes c container)
    {n s t : Nat} (hn : c.ends[n]? = some ⟨some s, some t⟩) {way : RoutedEdge α}
    (hway : (ofInteriors c c.orderedScopes i).edge? n = some way) :
    let p := ofInteriors c c.orderedScopes i
    let scope := c.scopeOf (c.common s t)
    let sizes := i.sizes shapes scope
    ∃ part ∈ Component.ofScope scope, ∃ named ranking offset,
      Ranking.ofDigraph (α := α) (part.digraph shapes.edges) = .ok ranking ∧
      let r := part.routing config sizes shapes.edges named ranking
      (∀ j v m, part.members[j]? = some v → scope.members[v]? = some m →
        ∃ place, p.Holds m place ∧ place.bounds =
          ((Bounds.around (r.center j) (Component.sizeOf sizes v)).translate offset).translate
            (p.origin i (c.common s t))) ∧
      way.Follows r.layering
        (fun v => ((r.center v).add offset).add (p.origin i (c.common s t)))
        (fun j => part.links[j]?.map (·.edge) = some n) (s = t)
        (i.rankIn c (c.common s t) s) (i.rankIn c (c.common s t) t)
        (Component.labelOf shapes.edges n).isSome := by
  intro p scope sizes
  obtain ⟨x, hx, w, hw, hnumber, rfl⟩ := traced_ofInteriors hc i n way hway
  have hcontainer : c.IsContainer x := hc.mem_order.mp (List.mem_reverse.mp hx)
  obtain ⟨_, _, hscope⟩ := (hsettled x hcontainer).scope
  have hwell := c.wellFormed_scopeOf x
  have hsize : (i.sizes shapes (c.scopeOf x)).size = (c.scopeOf x).members.length := by
    simp [Interiors.sizes]
  obtain ⟨part, hpart, named, ranking, offset, hranking, hboxes, e, he, hedge, hfollows⟩ :=
    ScopeLayout.exists_follows hwell hsize hscope hw
  obtain ⟨s', t', hends, rfl, hsource, htarget⟩ := Containment.of_mem_edges he
  rw [← hedge, hnumber, hn] at hends
  obtain ⟨rfl, rfl⟩ : s = s' ∧ t = t' := by simpa using hends
  have hnodup := c.nodup_members (c.common s t)
  have hloop : e.source = e.target ↔ s = t := by
    constructor
    · intro heq
      rw [heq, htarget] at hsource
      exact hc.representative_injective (Option.some.inj hsource).symm
    · rintro rfl
      rw [← idxOf_of_getElem? hnodup hsource, ← idxOf_of_getElem? hnodup htarget]
  refine ⟨part, hpart, named, ranking, offset, hranking, fun j v m hv hm => ?_, ?_⟩
  · have hmem := mem_interior (hsettled _ hcontainer) hm
    refine ⟨_, (housed_ofInteriors hc i hcontainer).members m _ hmem, ?_⟩
    rw [PlacedMember.translate, hboxes j v hv]
  · rw [Interiors.rankIn, Interiors.rankIn, idxOf_of_getElem? hnodup hsource,
      idxOf_of_getElem? hnodup htarget, ← hloop, ← hnumber, hedge]
    exact hfollows.translate _

end Placed

end Drafting.Graph
