import Mathlib
import Drafting.Proofs.Graph.DepthFirst

/-!
Scopes: which members they have and which edges run in them.

* `Containment.Sound`: clusters that elements lie in exist, and no cluster lies in itself;
  `Containment.sound_ofModel` says that this holds however faulty a graph is.
* `Containment.mem_members`: a scope has the elements that lie directly in its cluster.
* `Containment.Sound.representative_mem`: an edge has a member of its scope at either end.
* `Containment.exists_scopeEdge`: every edge with both ends runs in a scope.
* `Containment.orderedScopes_eq`, `Containment.Sound.mem_order`, `Containment.Sound.pairwise_order`:
  all scopes, inner ones before outer ones.
-/

namespace Drafting.Graph

/-- The ends of edges are positions of members. -/
def Scope.WellFormed (s : Scope) : Prop :=
  ∀ e ∈ s.edges, e.source < s.members.length ∧ e.target < s.members.length

/-- A found position lies in the list. -/
lemma lt_of_indexOf? {β : Type} {name : β → String} {xs : List β} {id : String} {i : Nat}
    (h : Declared.indexOf? name xs id = some i) : i < xs.length := by
  rw [Declared.indexOf?, List.findIdx?_eq_some_iff_getElem] at h
  exact h.1

namespace Containment

variable {α : Type}

/-- What elements lie in exists, no cluster lies in itself, and the ends of edges exist. -/
structure Sound (c : Containment α) : Prop where
  size_nodeCluster : c.nodeCluster.size = c.nodes.length
  size_clusterParent : c.clusterParent.size = c.clusters.length
  acyclic : Clusters.Acyclic c.clusterParent
  parents : Clusters.InRange c.clusterParent
  clusters : ∀ n k, c.nodeCluster.getD n none = some k → k < c.clusterParent.size
  sources : ∀ e ∈ c.ends, ∀ n, e.source = some n → n < c.nodes.length
  targets : ∀ e ∈ c.ends, ∀ n, e.target = some n → n < c.nodes.length

/-- The containment of a graph is sound, whatever the graph declares. -/
lemma sound_ofModel (m : Model α) : (ofModel m).Sound := by
  have hdeclared : m.declaredParents.size = m.distinctClusters.length := by
    simp [Model.declaredParents]
  have hsize : (ofModel m).clusterParent.size = m.distinctClusters.length := by
    rw [← hdeclared]
    exact Clusters.size_breakCycles _
  refine ⟨by simp [ofModel], hsize, Clusters.acyclic_breakCycles _, ?_, ?_, ?_, ?_⟩
  · intro c d h
    have hold : Clusters.LiesIn m.declaredParents c d := Clusters.breakCycles_liesIn h
    have hc : c < m.distinctClusters.length := hdeclared ▸ hold.lt_size
    rw [Clusters.LiesIn, Array.getD_eq_getD_getElem?] at hold
    simp only [Model.declaredParents, List.getElem?_toArray, List.getElem?_map,
      List.getElem?_eq_getElem hc, Option.map_some, Option.getD_some] at hold
    obtain ⟨id, -, hid⟩ := Option.bind_eq_some_iff.mp hold
    exact hsize ▸ lt_of_indexOf? hid
  · intro n k h
    have hn : n < m.distinctNodes.length := by
      by_contra hn
      rw [Array.getD_eq_getD_getElem?, Array.getElem?_eq_none (by simpa [ofModel] using hn)] at h
      simp at h
    rw [Array.getD_eq_getD_getElem?] at h
    simp only [ofModel, List.getElem?_toArray, List.getElem?_map, List.getElem?_eq_getElem hn,
      Option.map_some, Option.getD_some] at h
    obtain ⟨id, -, hid⟩ := Option.bind_eq_some_iff.mp h
    exact hsize ▸ lt_of_indexOf? hid
  · intro e he n hn
    obtain ⟨edge, -, rfl⟩ := List.mem_map.mp he
    exact lt_of_indexOf? hn
  · intro e he n hn
    obtain ⟨edge, -, rfl⟩ := List.mem_map.mp he
    exact lt_of_indexOf? hn

/-! ### Members -/

/-- The cluster an element lies directly in. -/
def containerOf (c : Containment α) : Member → Option Nat
  | .node n => c.nodeCluster.getD n none
  | .cluster k => c.clusterParent.getD k none

/-- An element is declared. -/
def Declares (c : Containment α) : Member → Prop
  | .node n => n < c.nodeCluster.size
  | .cluster k => k < c.clusterParent.size

/-- The scope of a cluster, or of the whole diagram. -/
def scopeOf (c : Containment α) (container : Option Nat) : Scope :=
  scope c.entries (c.liftFrom 0 c.ends) container

/-- A cluster with an interior, or the whole diagram. -/
def IsContainer (c : Containment α) (container : Option Nat) : Prop :=
  ∀ k, container = some k → k < c.clusterParent.size

lemma isContainer_some {c : Containment α} {k : Nat} (hk : k < c.clusterParent.size) :
    c.IsContainer (some k) := by
  intro j hj
  rwa [← Option.some.inj hj]

/-- The entries without their order. -/
lemma mem_entries {c : Containment α} {member : Member} {container : Option Nat} :
    (∃ e ∈ c.entries, e.member = member ∧ e.container = container) ↔
      c.Declares member ∧ c.containerOf member = container := by
  simp only [entries, List.mem_mergeSort, List.mem_append, List.mem_mapIdx, Array.getElem_toList,
    Array.length_toList]
  constructor
  · rintro ⟨e, ⟨i, hi, rfl⟩ | ⟨i, hi, rfl⟩, rfl, rfl⟩
    · exact ⟨hi, by simp [containerOf, hi]⟩
    · exact ⟨hi, by simp [containerOf, hi]⟩
  · rintro ⟨hmem, rfl⟩
    cases member with
    | node n =>
        have hn : n < c.nodeCluster.size := hmem
        exact ⟨_, Or.inl ⟨n, hn, rfl⟩, rfl, by simp [containerOf, hn]⟩
    | cluster k =>
        have hk : k < c.clusterParent.size := hmem
        exact ⟨_, Or.inr ⟨k, hk, rfl⟩, rfl, by simp [containerOf, hk]⟩

/-- A scope has the elements that lie directly in its cluster. -/
lemma mem_members {c : Containment α} {container : Option Nat} {member : Member} :
    member ∈ (c.scopeOf container).members ↔ c.Declares member ∧
    c.containerOf member = container := by
  rw [← mem_entries]
  simp only [scopeOf, scope, List.mem_map, List.mem_filter, beq_iff_eq]
  constructor
  · rintro ⟨e, ⟨he, hcontainer⟩, hmember⟩
    exact ⟨e, he, hmember, hcontainer⟩
  · rintro ⟨e, he, hmember, hcontainer⟩
    exact ⟨e, ⟨he, hcontainer⟩, hmember⟩

/-- A map over a numbered list that forgets the entries. -/
lemma map_mapIdx_eq_map_range {β γ δ : Type} (xs : List β) (f : Nat → β → γ) (g : γ → δ)
    (h : Nat → δ) (hf : ∀ i x, g (f i x) = h i) :
    (xs.mapIdx f).map g = (List.range xs.length).map h := by
  refine List.ext_getElem (by simp) fun i hi _ => ?_
  simp [hf]

/-- No element is listed twice. -/
lemma nodup_members (c : Containment α) (container : Option Nat) :
    (c.scopeOf container).members.Nodup := by
  have hperm : (c.entries.map (·.member)).Perm
      ((List.range c.nodeCluster.size).map Member.node ++
        (List.range c.clusterParent.size).map Member.cluster) := by
    rw [entries]
    refine ((List.mergeSort_perm _ _).map _).trans (List.Perm.of_eq ?_)
    rw [List.map_append]
    exact congrArg₂ (· ++ ·) (map_mapIdx_eq_map_range _ _ _ _ fun _ _ => rfl)
      (map_mapIdx_eq_map_range _ _ _ _ fun _ _ => rfl)
  have hall : (c.entries.map (·.member)).Nodup := by
    refine hperm.nodup_iff.mpr (List.nodup_append.mpr ⟨?_, ?_, ?_⟩)
    · exact List.nodup_range.map fun _ _ h => Member.node.inj h
    · exact List.nodup_range.map fun _ _ h => Member.cluster.inj h
    · simp
  exact hall.sublist (List.filter_sublist.map _)

/-! ### Edges -/

/-- An edge with both ends in its scope. -/
def lift? (c : Containment α) (numbered : Ends × Nat) : Option Lifted :=
  match numbered.1.source, numbered.1.target with
  | some s, some t =>
    some ⟨numbered.2, c.common s t, c.representative (c.common s t) s,
      c.representative (c.common s t) t⟩
  | _, _ => none

lemma liftFrom_eq_filterMap (c : Containment α) (index : Nat) (ends : List Ends) :
    c.liftFrom index ends = (ends.zipIdx index).filterMap c.lift? := by
  induction ends generalizing index with
  | nil => rfl
  | cons e rest ih =>
      rw [liftFrom, List.zipIdx_cons, List.filterMap_cons, lift?]
      obtain ⟨source, target⟩ := e
      cases source with
      | none => exact ih (index + 1)
      | some s =>
          cases target with
          | none => exact ih (index + 1)
          | some t => exact congrArg (List.cons _) (ih (index + 1))

/-- An edge with both ends is lifted. -/
lemma mem_liftFrom {c : Containment α} {i s t : Nat} (h : c.ends[i]? = some ⟨some s, some t⟩) :
    ⟨i, c.common s t, c.representative (c.common s t) s, c.representative (c.common s t) t⟩ ∈
      c.liftFrom 0 c.ends := by
  rw [liftFrom_eq_filterMap, List.mem_filterMap]
  exact ⟨(⟨some s, some t⟩, i), List.mk_mem_zipIdx_iff_getElem?.mpr h, rfl⟩

/-- The edges of a scope run between positions of its members. -/
lemma wellFormed_scopeOf (c : Containment α) (container : Option Nat) :
    (c.scopeOf container).WellFormed := by
  intro e he
  obtain ⟨l, -, hl⟩ := List.mem_filterMap.mp he
  split at hl
  next s t hs ht =>
    obtain rfl := Option.some.inj hl
    exact ⟨(List.findIdx?_eq_some_iff_getElem.mp hs).1, (List.findIdx?_eq_some_iff_getElem.mp ht).1⟩
  next => simp at hl

/-- The clusters around a node exist. -/
lemma Sound.lt_of_mem_chain {c : Containment α} (h : c.Sound) {n k : Nat} (hk : k ∈ c.chain n) :
    k < c.clusterParent.size := by
  rw [chain] at hk
  cases hn : c.nodeCluster.getD n none with
  | none => rw [hn, Clusters.outward_none] at hk; simp at hk
  | some j =>
      rw [hn] at hk
      exact Clusters.lt_size_of_mem_outward h.acyclic h.parents (h.clusters n j hn) hk

/-- The innermost cluster around two nodes is around each of them. -/
lemma common_cases (c : Containment α) (s t : Nat) :
    c.common s t = none ∨ ∃ k, c.common s t = some k ∧ k ∈ c.chain s ∧ k ∈ c.chain t := by
  cases hk : c.common s t with
  | none => exact Or.inl rfl
  | some k =>
      rw [common] at hk
      exact Or.inr ⟨k, rfl, List.mem_of_find?_eq_some hk, by simpa using List.find?_some hk⟩

lemma Sound.isContainer_common {c : Containment α} (h : c.Sound) (s t : Nat) :
    c.IsContainer (c.common s t) := by
  intro k hk
  rcases c.common_cases s t with hnone | ⟨j, hj, hs, -⟩
  · rw [hnone] at hk
    simp at hk
  · obtain rfl : j = k := Option.some.inj (hj.symm.trans hk)
    exact h.lt_of_mem_chain hs

/-- A node is represented in a scope around it by a member of that scope. -/
lemma Sound.representative_mem {c : Containment α} (h : c.Sound) {container : Option Nat} {n : Nat}
    (hn : n < c.nodes.length)
    (hcontainer : container = none ∨ ∃ k, container = some k ∧ k ∈ c.chain n) :
    c.representative container n ∈ (c.scopeOf container).members := by
  rw [mem_members, representative]
  split
  next hdirect => exact ⟨lt_of_lt_of_eq hn h.size_nodeCluster.symm, hdirect⟩
  next hindirect =>
    have hfind : ∃ k ∈ c.chain n, c.clusterParent.getD k none = container := by
      rw [chain] at hcontainer ⊢
      exact Clusters.exists_mem_outward h.acyclic h.parents (h.clusters n) hindirect hcontainer
    obtain ⟨k, hk, hparent⟩ := hfind
    cases hfound : (c.chain n).find? fun k => c.clusterParent.getD k none == container with
    | none =>
        rw [List.find?_eq_none] at hfound
        exact absurd (by simpa using hparent) (hfound k hk)
    | some j =>
        exact ⟨h.lt_of_mem_chain (List.mem_of_find?_eq_some hfound),
          by simpa [containerOf] using List.find?_some hfound⟩

/-- **Every edge with both ends runs in a scope**, the innermost one around its ends. -/
lemma Sound.exists_scopeEdge {c : Containment α} (h : c.Sound) {i s t : Nat}
    (hi : c.ends[i]? = some ⟨some s, some t⟩) :
    ∃ e ∈ (c.scopeOf (c.common s t)).edges, e.edge = i := by
  have hmem := List.mem_of_getElem? hi
  have hcases := c.common_cases s t
  have hsource : c.representative (c.common s t) s ∈ (c.scopeOf (c.common s t)).members := by
    refine h.representative_mem (h.sources _ hmem s rfl) (hcases.imp_right ?_)
    rintro ⟨k, hk, hs, -⟩
    exact ⟨k, hk, hs⟩
  have htarget : c.representative (c.common s t) t ∈ (c.scopeOf (c.common s t)).members := by
    refine h.representative_mem (h.targets _ hmem t rfl) (hcases.imp_right ?_)
    rintro ⟨k, hk, -, ht⟩
    exact ⟨k, hk, ht⟩
  obtain ⟨a, ha⟩ : ∃ a, (c.scopeOf (c.common s t)).members.findIdx?
      (· == c.representative (c.common s t) s) = some a := by
    rw [← Option.isSome_iff_exists, List.findIdx?_isSome, List.any_eq_true]
    exact ⟨_, hsource, by simp⟩
  obtain ⟨b, hb⟩ : ∃ b, (c.scopeOf (c.common s t)).members.findIdx?
      (· == c.representative (c.common s t) t) = some b := by
    rw [← Option.isSome_iff_exists, List.findIdx?_isSome, List.any_eq_true]
    exact ⟨_, htarget, by simp⟩
  refine ⟨⟨i, a, b⟩, ?_, rfl⟩
  refine List.mem_filterMap.mpr ⟨_, List.mem_filter.mpr ⟨mem_liftFrom hi, by simp⟩, ?_⟩
  rw [scopeOf, scope] at ha hb
  simp only [ha, hb]

/-! ### The order of scopes -/

/-- How many clusters are around the interior of a container. -/
def level (c : Containment α) : Option Nat → Nat
  | none => 0
  | some k => Clusters.depth c.clusterParent k

lemma isContainer_of_mem_order {c : Containment α} {container : Option Nat}
    (h : container ∈ c.order) : c.IsContainer container := by
  rintro k rfl
  rcases Relation.ReflTransGen.cases_head (Clusters.of_mem_inwardFrom h) with
    hnone | ⟨_, ⟨j, hj, hlt, -⟩, -⟩
  · cases hnone
  · rwa [Option.some.inj hj]

lemma Sound.mem_order {c : Containment α} (h : c.Sound) {container : Option Nat} :
    container ∈ c.order ↔ c.IsContainer container := by
  refine ⟨isContainer_of_mem_order, fun hcontainer => ?_⟩
  rw [order, Clusters.mem_inwardFrom h.acyclic h.parents (Nat.le_add_right _ _)]
  exact Clusters.reflTransGen_none h.acyclic h.parents hcontainer

lemma Sound.nodup_order {c : Containment α} (h : c.Sound) : c.order.Nodup :=
  Clusters.nodup_inwardFrom h.acyclic h.parents _ _

/-- No container is listed before what lies in it. -/
lemma Sound.pairwise_order {c : Containment α} (h : c.Sound) :
    c.order.Pairwise fun x y => ∀ k, y = some k → Member.cluster k ∉ (c.scopeOf x).members := by
  refine (Clusters.pairwise_inwardFrom h.acyclic h.parents _ _).imp fun {x y} hxy => ?_
  rintro k rfl hk
  obtain ⟨hdeclared, hcontainer⟩ := mem_members.mp hk
  exact hxy ⟨k, rfl, hdeclared, hcontainer⟩

/-- The scopes in order are the scopes of the containers in order. -/
lemma orderedScopes_eq (c : Containment α) : c.orderedScopes = c.order.map c.scopeOf := by
  rw [orderedScopes, ← List.filterMap_eq_map]
  refine List.filterMap_congr fun container hcontainer => ?_
  replace hcontainer := isContainer_of_mem_order hcontainer
  cases container with
  | none => rfl
  | some k =>
      have hk := hcontainer k rfl
      simp [scopes, scopeIndex, scopeOf, hk]

end Containment

end Drafting.Graph
