import Mathlib
import Drafting.Proofs.Graph.Elements

/-!
How a graph is divided into scopes.

Every element is a member of one scope, and every edge with both ends runs in one: that of the
innermost cluster around both, between the members that contain them.

* `Containment.IsInnermostAround`: the innermost cluster around two nodes, or the whole diagram if
  there is none; `Containment.Sound.isInnermostAround_common` says that it is found.
* `Containment.Lifts`: an edge of a scope stands for an edge between two nodes.
* `Containment.nodup_edges`: no edge runs in two scopes, nor in one scope twice.
* `Containment.Divides`, `Containment.build_divides`: what the scopes of a graph are.
-/

namespace Drafting.Graph

open Relation

/-- What entries are told apart by is kept by those that are selected. -/
lemma map_filterMap_sublist {β γ δ : Type} {f : β → Option γ} {g : γ → δ} {k : β → δ}
    (h : ∀ x y, f x = some y → g y = k x) (xs : List β) :
    ((xs.filterMap f).map g).Sublist (xs.map k) := by
  induction xs with
  | nil => exact List.Sublist.refl _
  | cons x xs ih =>
      rw [List.map_cons]
      cases hx : f x with
      | none =>
          rw [List.filterMap_cons_none hx]
          exact ih.cons _
      | some y =>
          rw [List.filterMap_cons_some hx, List.map_cons, h x y hx]
          exact ih.cons_cons _

namespace Containment

variable {α : Type} {c : Containment α}

/-- A cluster contains both of two nodes, directly or not. -/
def IsAroundBoth (c : Containment α) (s t k : Nat) : Prop :=
  TransGen c.LiesIn (.node s) (.cluster k) ∧ TransGen c.LiesIn (.node t) (.cluster k)

/-- The innermost cluster around two nodes, or the whole diagram if no cluster is around both. -/
def IsInnermostAround (c : Containment α) (s t : Nat) : Option Nat → Prop
  | none => ∀ k, ¬ c.IsAroundBoth s t k
  | some k => c.IsAroundBoth s t k ∧ ∀ j, c.IsAroundBoth s t j → j ≠ k →
    Clusters.depth c.clusterParent j < Clusters.depth c.clusterParent k

/-- An edge of a scope stands for an edge from node to node. -/
structure Lifts (c : Containment α) (s t : Nat) (scope : Scope) (e : ScopeEdge) : Prop where
  /-- The scope is the innermost one around both nodes. -/
  innermost : c.IsInnermostAround s t scope.container
  /-- It leaves the member that is the first node or contains it. -/
  source : ∃ x, scope.members[e.source]? = some x ∧ ReflTransGen c.LiesIn (.node s) x
  /-- It enters the member that is the second node or contains it. -/
  target : ∃ x, scope.members[e.target]? = some x ∧ ReflTransGen c.LiesIn (.node t) x
  /-- It is a loop exactly if the nodes are the same. -/
  loop_iff : e.source = e.target ↔ s = t

/-- The scopes of a graph. -/
structure Divides (m : Model α) (c : Containment α) : Prop where
  /-- Nodes are numbered by their names in the order in which these are first declared. -/
  nodes : c.nodes.map (·.id) = (m.nodes.map (·.id)).eraseDups
  /-- Clusters are numbered in the same way. -/
  clusters : c.clusters.map (·.id) = (m.clusters.map (·.id)).eraseDups
  /-- The elements are these nodes and these clusters. -/
  declares : (∀ n, c.Declares (.node n) ↔ n < c.nodes.length) ∧
    ∀ k, c.Declares (.cluster k) ↔ k < c.clusters.length
  /-- A node lies in the cluster it names, if there is one of that name. -/
  nodeCluster : ∀ n node, c.nodes[n]? = some node →
    c.containerOf (.node n) = node.parent.bind m.clusterIndex?
  /-- A cluster lies in the cluster it names, unless a cycle was cut there. -/
  clusterParent : ∀ k, c.containerOf (.cluster k) =
    (Clusters.breakCycles m.declaredParents).1.getD k none
  /-- There is one scope for the whole diagram and one for each cluster. -/
  scopes : c.scopes.map (·.container) = none :: (List.range c.clusters.length).map some
  /-- An element is a member of one scope, once: that of the cluster it lies in. -/
  member : ∀ x, c.Declares x → ∃ s ∈ c.scopes, s.container = c.containerOf x ∧
    s.members.count x = 1 ∧ ∀ s' ∈ c.scopes, x ∈ s'.members → s' = s
  /-- Every scope is laid out once. -/
  order : c.orderedScopes.Perm c.scopes
  /-- The scope of a cluster is laid out before the scope that the cluster lies in. -/
  inner_first : ∀ (i j k : Nat) (s t : Scope), c.orderedScopes[i]? = some s →
    c.orderedScopes[j]? = some t → s.container = some k →
    t.container = c.containerOf (.cluster k) → i < j
  /-- An edge with both ends runs in one scope, once. -/
  edge : ∀ i e s t, m.edges[i]? = some e → c.nodes[s]?.map (·.id) = some e.source →
    c.nodes[t]?.map (·.id) = some e.target → ∃ scope ∈ c.scopes, ∃ f ∈ scope.edges,
      (c.scopes.flatMap (·.edges)).filter (·.edge == i) = [f] ∧ c.Lifts s t scope f
  /-- An edge that lacks an end runs in no scope. -/
  both_ends : ∀ s ∈ c.scopes, ∀ f ∈ s.edges, ∃ e, m.edges[f.edge]? = some e ∧
    m.HasNode e.source ∧ m.HasNode e.target

/-! ### The innermost scope around two nodes -/

lemma reflTransGen_cluster {j k : Nat} :
    ReflTransGen (Clusters.LiesIn c.clusterParent) j k ↔
      ReflTransGen c.LiesIn (.cluster j) (.cluster k) := by
  constructor
  · exact fun h => h.lift Member.cluster fun _ b hab => ⟨b, rfl, hab⟩
  · intro h
    have key : ∀ x, ReflTransGen c.LiesIn (.cluster j) x →
        ∃ k, x = .cluster k ∧ ReflTransGen (Clusters.LiesIn c.clusterParent) j k := by
      intro x hx
      induction hx with
      | refl => exact ⟨j, rfl, ReflTransGen.refl⟩
      | tail _ hstep ih =>
          obtain ⟨i, rfl, hi⟩ := ih
          obtain ⟨k, rfl, hk⟩ := hstep
          exact ⟨k, rfl, hi.tail hk⟩
    obtain ⟨k', hk', hreach⟩ := key _ h
    rwa [Member.cluster.inj hk']

/-- The clusters around a node are those it lies in. -/
lemma Sound.mem_chain (h : c.Sound) {n k : Nat} :
    k ∈ c.chain n ↔ TransGen c.LiesIn (.node n) (.cluster k) := by
  rw [TransGen.head'_iff, chain]
  cases hn : c.nodeCluster.getD n none with
  | none =>
      rw [Clusters.outward_none]
      refine iff_of_false List.not_mem_nil ?_
      rintro ⟨x, ⟨j, -, hj⟩, -⟩
      rw [containerOf, hn] at hj
      cases hj
  | some j =>
      rw [Clusters.mem_outward h.acyclic h.parents (h.clusters n j hn), reflTransGen_cluster]
      constructor
      · exact fun hreach => ⟨.cluster j, ⟨j, rfl, hn⟩, hreach⟩
      · rintro ⟨x, ⟨i, rfl, hi⟩, hreach⟩
        rw [containerOf, hn] at hi
        rwa [Option.some.inj hi]

lemma Sound.depth_lt (h : c.Sound) {j k : Nat}
    (hjk : TransGen (Clusters.LiesIn c.clusterParent) j k) :
    Clusters.depth c.clusterParent k < Clusters.depth c.clusterParent j := by
  induction hjk with
  | single hstep =>
      have := Clusters.depth_eq_succ h.acyclic h.parents hstep
      omega
  | tail _ hstep ih =>
      have := Clusters.depth_eq_succ h.acyclic h.parents hstep
      omega

/-- **The innermost cluster around two nodes is found.** -/
lemma Sound.isInnermostAround_common (h : c.Sound) (s t : Nat) :
    c.IsInnermostAround s t (c.common s t) := by
  have haround : ∀ k, c.IsAroundBoth s t k ↔ k ∈ c.chain s ∧ k ∈ c.chain t := fun k => by
    rw [IsAroundBoth, h.mem_chain, h.mem_chain]
  cases hcommon : c.common s t with
  | none =>
      rw [common, List.find?_eq_none] at hcommon
      intro k hk
      obtain ⟨hs, ht⟩ := (haround k).mp hk
      exact hcommon k hs (by simpa using ht)
  | some k =>
      rw [common, List.find?_eq_some_iff_append] at hcommon
      obtain ⟨hk, before, after, hsplit, hnone⟩ := hcommon
      have hpairwise := h.pairwise_chain s
      simp only [hsplit] at haround hpairwise
      refine ⟨(haround k).mpr ⟨by simp, by simpa using hk⟩, fun j hj hne => ?_⟩
      obtain ⟨hs, ht⟩ := (haround j).mp hj
      -- clusters further in are not around the second node, the others contain
      -- the one that is found
      rcases List.mem_append.mp hs with hbefore | hafter
      · have hj' := hnone j hbefore
        simp [ht] at hj'
      · have hafter := (List.mem_cons.mp hafter).resolve_left hne
        exact h.depth_lt ((List.pairwise_cons.mp
          (List.pairwise_append.mp hpairwise).2.1).1 j hafter)

/-- A node lies in the member that it is in, or is that member. -/
lemma Sound.reflTransGen_representative (h : c.Sound) (container : Option Nat) (n : Nat) :
    ReflTransGen c.LiesIn (.node n) (c.representative container n) := by
  rcases c.representative_cases container n with hself | ⟨k, hk, -, hcluster⟩
  · rw [hself]
  · rw [hcluster]
    exact (h.mem_chain.mp hk).to_reflTransGen

/-- What an edge of a scope stands for. -/
lemma Sound.lifts (h : c.Sound) {container : Option Nat} {e : ScopeEdge}
    (he : e ∈ (c.scopeOf container).edges) {s t : Nat}
    (hends : c.ends[e.edge]? = some ⟨some s, some t⟩) : c.Lifts s t (c.scopeOf container) e := by
  obtain ⟨s', t', hends', rfl, hsource, htarget⟩ := of_mem_edges he
  obtain ⟨rfl, rfl⟩ : s = s' ∧ t = t' := by simpa [hends] using hends'
  have hnodup := c.nodup_members (c.common s t)
  constructor
  case innermost => exact h.isInnermostAround_common s t
  case source => exact ⟨_, hsource, h.reflTransGen_representative _ s⟩
  case target => exact ⟨_, htarget, h.reflTransGen_representative _ t⟩
  case loop_iff =>
    constructor
    · intro heq
      rw [heq, htarget] at hsource
      exact h.representative_injective (Option.some.inj hsource).symm
    · rintro rfl
      rw [← idxOf_of_getElem? hnodup hsource, ← idxOf_of_getElem? hnodup htarget]

/-! ### All scopes -/

/-- The whole diagram and all clusters. -/
def containers (c : Containment α) : List (Option Nat) :=
  none :: (List.range c.clusterParent.size).map some

lemma mem_containers {x : Option Nat} : x ∈ c.containers ↔ c.IsContainer x := by
  rw [containers, IsContainer, List.mem_cons, List.mem_map]
  cases x with
  | none => simp
  | some k => simp

lemma nodup_containers (c : Containment α) : c.containers.Nodup := by
  refine List.nodup_cons.mpr ⟨by simp, ?_⟩
  exact List.nodup_range.map fun _ _ h => Option.some.inj h

lemma scopes_eq (c : Containment α) : c.scopes = c.containers.map c.scopeOf := by
  rw [containers, List.map_cons, List.map_map]
  rfl

lemma mem_scopes {s : Scope} : s ∈ c.scopes ↔ ∃ x, c.IsContainer x ∧ s = c.scopeOf x := by
  rw [scopes_eq, List.mem_map]
  simp only [mem_containers, eq_comm]

/-- Every scope is laid out once. -/
lemma Sound.orderedScopes_perm (h : c.Sound) : c.orderedScopes.Perm c.scopes := by
  have hperm : c.order.Perm c.containers :=
    (List.perm_ext_iff_of_nodup h.nodup_order c.nodup_containers).mpr fun x => by
      rw [h.mem_order, mem_containers]
  rw [orderedScopes_eq, scopes_eq]
  exact hperm.map _

/-- The scope of a cluster comes before the scope that the cluster lies in. -/
lemma Sound.lt_of_orderedScopes (h : c.Sound) {i j k : Nat} {s t : Scope}
    (hs : c.orderedScopes[i]? = some s) (ht : c.orderedScopes[j]? = some t)
    (hcluster : s.container = some k) (hcontainer : t.container = c.containerOf (.cluster k)) :
    i < j := by
  rw [orderedScopes_eq, List.getElem?_map] at hs ht
  obtain ⟨x, hx, rfl⟩ := Option.map_eq_some_iff.mp hs
  obtain ⟨y, hy, rfl⟩ := Option.map_eq_some_iff.mp ht
  obtain rfl : x = some k := hcluster
  obtain rfl : y = c.containerOf (.cluster k) := hcontainer
  obtain ⟨hi, hx⟩ := List.getElem?_eq_some_iff.mp hx
  obtain ⟨hj, hy⟩ := List.getElem?_eq_some_iff.mp hy
  have hk : c.Declares (.cluster k) :=
    isContainer_of_mem_order (hx ▸ List.getElem_mem hi) k rfl
  have hmem : Member.cluster k ∈ (c.scopeOf (c.containerOf (.cluster k))).members :=
    mem_members.mpr ⟨hk, rfl⟩
  rcases Nat.lt_trichotomy i j with hlt | rfl | hgt
  · exact hlt
  · have hself : Clusters.LiesIn c.clusterParent k k := hy.symm.trans hx
    exact absurd (TransGen.single hself) (h.acyclic k)
  · have hbefore := List.pairwise_iff_getElem.mp h.pairwise_order j i hj hi hgt k hx
    rw [hy] at hbefore
    exact absurd hmem hbefore

/-- An element is a member of one scope. -/
lemma Sound.exists_scope_of_declares (h : c.Sound) {x : Member} (hx : c.Declares x) :
    ∃ s ∈ c.scopes, s.container = c.containerOf x ∧ s.members.count x = 1 ∧
      ∀ s' ∈ c.scopes, x ∈ s'.members → s' = s := by
  refine ⟨c.scopeOf (c.containerOf x), ?_, rfl, ?_, fun s' hs' hmem => ?_⟩
  · exact mem_scopes.mpr ⟨_, h.isContainer_containerOf x, rfl⟩
  · exact List.count_eq_one_of_mem (c.nodup_members _) (mem_members.mpr ⟨hx, rfl⟩)
  · obtain ⟨y, -, rfl⟩ := mem_scopes.mp hs'
    rw [(mem_members.mp hmem).2]

/-! ### All edges -/

lemma nodup_liftFrom (c : Containment α) : ((c.liftFrom 0 c.ends).map (·.edge)).Nodup := by
  rw [liftFrom_eq_filterMap]
  have hkeys : ∀ numbered l, c.lift? numbered = some l → l.edge = numbered.2 := by
    rintro ⟨⟨source, target⟩, index⟩ l hl
    cases source with
    | none => cases hl
    | some s =>
        cases target with
        | none => cases hl
        | some t => rw [← Option.some.inj hl]
  refine (map_filterMap_sublist hkeys _).nodup ?_
  rw [List.zipIdx_map_snd]
  exact List.nodup_range'

lemma nodup_edges_scopeOf (c : Containment α) (container : Option Nat) :
    ((c.scopeOf container).edges.map (·.edge)).Nodup := by
  refine (map_filterMap_sublist (k := Lifted.edge) (fun l e he => ?_) _).nodup
    (c.nodup_liftFrom.sublist (List.filter_sublist.map _))
  split at he
  · rw [← Option.some.inj he]
  · cases he

/-- **No edge runs in two scopes, nor in one twice.** -/
lemma nodup_edges (c : Containment α) : ((c.scopes.flatMap (·.edges)).map (·.edge)).Nodup := by
  rw [scopes_eq, List.flatMap_map, List.map_flatMap, List.nodup_flatMap]
  refine ⟨fun x _ => c.nodup_edges_scopeOf x, c.nodup_containers.imp
    fun {x y} hne i hi hi' => hne ?_⟩
  obtain ⟨e, he, rfl⟩ := List.mem_map.mp hi
  obtain ⟨e', he', heq⟩ := List.mem_map.mp hi'
  obtain ⟨s, t, hends, rfl, -⟩ := of_mem_edges he
  obtain ⟨s', t', hends', rfl, -⟩ := of_mem_edges he'
  rw [heq, hends] at hends'
  obtain ⟨rfl, rfl⟩ : s = s' ∧ t = t' := by simpa using hends'
  rfl

/-- **An edge with both ends runs in one scope.** -/
lemma Sound.exists_lifts (h : c.Sound) {i s t : Nat} (hi : c.ends[i]? = some ⟨some s, some t⟩) :
    ∃ scope ∈ c.scopes, ∃ e ∈ scope.edges,
      (c.scopes.flatMap (·.edges)).filter (·.edge == i) = [e] ∧ c.Lifts s t scope e := by
  obtain ⟨e, he, rfl⟩ := h.exists_scopeEdge hi
  have hscope : c.scopeOf (c.common s t) ∈ c.scopes :=
    mem_scopes.mpr ⟨_, h.isContainer_common s t, rfl⟩
  refine ⟨_, hscope, e, he, ?_, h.lifts he hi⟩
  exact filter_key_eq c.nodup_edges (List.mem_flatMap.mpr ⟨_, hscope, he⟩)

/-! ### Graphs -/

/-- A node is found by its name. -/
lemma indexOf?_of_getElem? {m : Model α} {n : Nat} {id : Ident}
    (h : (ofModel m).nodes[n]?.map (·.id) = some id) :
    Declared.indexOf? Node.id m.distinctNodes id = some n := by
  obtain ⟨node, hnode, rfl⟩ := Option.map_eq_some_iff.mp h
  obtain ⟨hn, rfl⟩ := List.getElem?_eq_some_iff.mp hnode
  exact Declared.indexOf?_getElem (Declared.nodup_firsts Node.id m.nodes) hn

/-- The ends of an edge. -/
lemma getElem?_ends {m : Model α} {i : Nat} {e : Edge} (h : m.edges[i]? = some e) :
    (ofModel m).ends[i]? = some ⟨Declared.indexOf? Node.id m.distinctNodes e.source,
      Declared.indexOf? Node.id m.distinctNodes e.target⟩ := by
  simp [ofModel, h]

/-- **A graph that is not nested too deeply is divided into scopes.**  Every element is a
member of one scope and every edge with both ends runs in one, the innermost around them,
and no other edge does. -/
theorem build_divides {limit : Nat} {m : Model α} {c : Containment α} (h : build limit m = .ok c) :
    c.Divides m := by
  have hc : ofModel m = c := by
    rw [build] at h
    split at h
    · cases h
    · exact Except.ok.inj h
  subst hc
  have hsound := sound_ofModel m
  constructor
  case nodes => exact Declared.map_firsts Node.id m.nodes
  case clusters => exact Declared.map_firsts Cluster.id m.clusters
  case declares =>
    refine ⟨fun n => ?_, fun k => ?_⟩
    · rw [Declares, hsound.size_nodeCluster]
    · rw [Declares, hsound.size_clusterParent]
  case nodeCluster =>
    intro n node hnode
    have hnode : m.distinctNodes[n]? = some node := hnode
    rw [containerOf, Array.getD_eq_getD_getElem?]
    simp only [ofModel, List.getElem?_toArray, List.getElem?_map, hnode, Option.map_some,
      Option.getD_some]
    rfl
  case clusterParent => exact fun _ => rfl
  case scopes =>
    rw [scopes_eq, List.map_map, ← hsound.size_clusterParent]
    exact List.map_id _
  case member => exact fun x hx => hsound.exists_scope_of_declares hx
  case order => exact hsound.orderedScopes_perm
  case inner_first =>
    exact fun i j k s t hs ht hk hcontainer => hsound.lt_of_orderedScopes hs ht hk hcontainer
  case edge =>
    intro i e s t he hs ht
    have hends := getElem?_ends he
    rw [indexOf?_of_getElem? hs, indexOf?_of_getElem? ht] at hends
    exact hsound.exists_lifts hends
  case both_ends =>
    intro scope hscope f hf
    obtain ⟨x, -, rfl⟩ := mem_scopes.mp hscope
    obtain ⟨s, t, hends, -⟩ := of_mem_edges hf
    have hlt : f.edge < m.edges.length := by
      simpa [ofModel] using (List.getElem?_eq_some_iff.mp hends).1
    have he := List.getElem?_eq_getElem hlt
    rw [getElem?_ends he] at hends
    obtain ⟨hs, ht⟩ := Ends.mk.inj (Option.some.inj hends)
    exact ⟨_, he, Model.hasNode_iff.mpr (by rw [hs]; rfl), Model.hasNode_iff.mpr (by rw [ht]; rfl)⟩

/-- Two clusters that lie in each other, of which the first becomes an outermost one, a loop, edges
out of clusters, a node that is declared twice and an edge that lacks an end. -/
theorem divides_a_faulty_graph :
    let m : Model Rat :=
      { nodes := [{ id := "a", parent := some "q" }, { id := "b", parent := some "r" },
          { id := "c" }, { id := "a" }]
        edges := [{ source := "a", target := "b" }, { source := "b", target := "b" },
          { source := "c", target := "a" }, { source := "a", target := "z" }]
        clusters := [{ id := "p", parent := some "q" }, { id := "q", parent := some "p" },
          { id := "r", parent := some "p" }] }
    ∃ c, build 2 m = .ok c ∧ c.Divides m ∧
      c.orderedScopes = [⟨some 2, [.node 1], [⟨1, 0, 0⟩]⟩, ⟨some 1, [.node 0], []⟩,
        ⟨some 0, [.cluster 1, .cluster 2], [⟨0, 0, 1⟩]⟩,
        ⟨none, [.cluster 0, .node 2], [⟨2, 1, 0⟩]⟩] := by
  intro m
  have hdepth : ¬ 2 < (ofModel m).depth := by cbv
  have hbuild : build 2 m = .ok (ofModel m) := by rw [build, if_neg hdepth]
  exact ⟨ofModel m, hbuild, build_divides hbuild, by cbv⟩

end Containment

end Drafting.Graph
