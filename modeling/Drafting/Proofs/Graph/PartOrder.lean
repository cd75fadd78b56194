import Mathlib
import Drafting.Proofs.Graph.Lifting
import Drafting.Proofs.Graph.Positions

/-!
The connected parts of a scope and their order.

Members of a scope are sorted by the first node they contain.  No two of them contain the same node,
so each contains a node before any node of a later one, and so does each part.

* `Containment.keyOf`: what a member is ordered by; `Containment.Sound.keyOf_cases` says that it is
  the first node the member contains.
* `Containment.Sound.pairwise_precedes_members`: the order of the members of a scope.
* `Component.pairwise_precedes`: parts come in the order of their first members.
* `Containment.Sound.exists_cluster`: a part without nodes is an empty cluster.
* `Containment.FallsInto`, `Containment.scopes_fall_into_parts`: what the parts of a scope are.
-/

namespace Drafting.Graph

open Relation

/-- Of two collections of nodes, the first has a node before any node of the second. -/
def Precedes (p q : Nat → Prop) : Prop := ∀ n, q n → ∃ k < n, p k

namespace Containment

/-! ### Keys -/

/-- Keys are compared entry by entry, the flag of clusters without nodes first. -/
lemma Key.le_iff {k l : Key} : Key.le k l ↔
    k.empty < l.empty ∨ k.empty = l.empty ∧
      (k.first < l.first ∨ k.first = l.first ∧ k.second ≤ l.second) := by
  rw [Key.le]
  by_cases hempty : k.empty = l.empty
  · by_cases hfirst : k.first = l.first
    · simp [hempty, hfirst]
    · simp [hempty, hfirst]
  · cases hk : k.empty <;> cases hl : l.empty <;> simp_all

lemma Key.le_trans (k l j : Key) (hkl : Key.le k l) (hlj : Key.le l j) : Key.le k j := by
  rw [Key.le_iff] at hkl hlj ⊢
  rcases hkl with hkl | ⟨hkl, hkl'⟩ <;> rcases hlj with hlj | ⟨hlj, hlj'⟩
  · exact Or.inl (hkl.trans hlj)
  · exact Or.inl (hlj ▸ hkl)
  · exact Or.inl (hkl ▸ hlj)
  · exact Or.inr ⟨hkl.trans hlj, by omega⟩

lemma Key.le_total (k l : Key) : Key.le k l || Key.le l k := by
  rw [Bool.or_eq_true, Key.le_iff, Key.le_iff]
  rcases lt_trichotomy k.empty l.empty with hlt | heq | hgt
  · exact Or.inl (Or.inl hlt)
  · rcases Nat.lt_trichotomy k.first l.first with hlt | heq' | hgt
    · exact Or.inl (Or.inr ⟨heq, Or.inl hlt⟩)
    · rcases Nat.le_total k.second l.second with hle | hle
      · exact Or.inl (Or.inr ⟨heq, Or.inr ⟨heq', hle⟩⟩)
      · exact Or.inr (Or.inr ⟨heq.symm, Or.inr ⟨heq'.symm, hle⟩⟩)
    · exact Or.inr (Or.inr ⟨heq.symm, Or.inl hgt⟩)
  · exact Or.inr (Or.inl hgt)

variable {α : Type} {c : Containment α}

/-- The clusters around each node. -/
def chains (c : Containment α) : List (List Nat) :=
  c.nodeCluster.toList.map (Clusters.outward c.clusterParent)

lemma getElem_chains {n : Nat} (hn : n < c.chains.length) : c.chains[n] = c.chain n := by
  have hsize : n < c.nodeCluster.size := by simpa [chains] using hn
  simp [chains, chain, hsize]

/-- Nodes that are not declared lie in no cluster. -/
lemma chain_of_length_le {n : Nat} (hn : c.chains.length ≤ n) : c.chain n = [] := by
  have hsize : c.nodeCluster.size ≤ n := by simpa [chains] using hn
  rw [chain, Array.getD_eq_getD_getElem?, Array.getElem?_eq_none hsize, Option.getD_none,
    Clusters.outward_none]

/-- What an element is ordered by. -/
def keyOf (c : Containment α) : Member → Key
  | .node n => ⟨false, n, 0⟩
  | .cluster k => clusterKey c.chains k

lemma key_of_mem_entries {e : Entry} (he : e ∈ c.entries) : e.key = c.keyOf e.member := by
  simp only [entries, List.mem_mergeSort, List.mem_append, List.mem_mapIdx] at he
  rcases he with ⟨i, hi, rfl⟩ | ⟨i, hi, rfl⟩ <;> rfl

/-- The members of a scope are sorted by their keys. -/
lemma pairwise_le_members (c : Containment α) (container : Option Nat) :
    (c.scopeOf container).members.Pairwise fun x y => Key.le (c.keyOf x) (c.keyOf y) := by
  have hentries : c.entries.Pairwise fun a b => Key.le a.key b.key :=
    List.pairwise_mergeSort (fun a b d => Key.le_trans a.key b.key d.key)
      (fun a b => Key.le_total a.key b.key) _
  refine List.pairwise_map.mpr ((hentries.filter _).imp_of_mem fun ha hb hle => ?_)
  rwa [← key_of_mem_entries (List.mem_of_mem_filter ha),
    ← key_of_mem_entries (List.mem_of_mem_filter hb)]

/-! ### The nodes in a member -/

/-- An element is a node or contains it, directly or in its clusters. -/
def Holds (c : Containment α) (x : Member) (n : Nat) : Prop := ReflTransGen c.LiesIn (.node n) x

lemma holds_node {m n : Nat} : c.Holds (.node m) n ↔ m = n := by
  constructor
  · intro h
    rcases ReflTransGen.cases_tail h with heq | ⟨x, -, k, hk, -⟩
    · exact Member.node.inj heq
    · cases hk
  · rintro rfl
    exact ReflTransGen.refl

lemma Sound.holds_cluster (h : c.Sound) {k n : Nat} : c.Holds (.cluster k) n ↔ k ∈ c.chain n := by
  rw [h.mem_chain, Holds, reflTransGen_iff_eq_or_transGen]
  simp

/-- **The key of an element tells the first node in it**, or that there is none. -/
lemma Sound.keyOf_cases (h : c.Sound) (x : Member) :
    ((c.keyOf x).empty = false ∧ c.Holds x (c.keyOf x).first ∧
        ∀ n, c.Holds x n → (c.keyOf x).first ≤ n) ∨
      (c.keyOf x).empty = true ∧ ∀ n, ¬ c.Holds x n := by
  cases x with
  | node m => exact Or.inl ⟨rfl, holds_node.mpr rfl, fun n hn => (holds_node.mp hn).le⟩
  | cluster k =>
      simp only [keyOf, clusterKey, h.holds_cluster]
      cases hfind : c.chains.findIdx? (·.contains k) with
      | some n =>
          obtain ⟨hn, hk, hbefore⟩ := List.findIdx?_eq_some_iff_getElem.mp hfind
          rw [getElem_chains, List.contains_iff_mem] at hk
          refine Or.inl ⟨rfl, hk, fun m hm => le_of_not_gt fun hlt => hbefore m hlt ?_⟩
          rwa [getElem_chains, List.contains_iff_mem]
      | none =>
          rw [List.findIdx?_eq_none_iff] at hfind
          refine Or.inr ⟨rfl, fun n hn => ?_⟩
          by_cases hlt : n < c.chains.length
          · have hnone := hfind _ (List.getElem_mem hlt)
            rw [getElem_chains] at hnone
            simp [hn] at hnone
          · rw [chain_of_length_le (not_lt.mp hlt)] at hn
            cases hn

/-- What an element lies in is unique. -/
lemma rightUnique_liesIn : Relator.RightUnique c.LiesIn := by
  rintro m _ _ ⟨j, rfl, hj⟩ ⟨k, rfl, hk⟩
  rw [Option.some.inj (hj.symm.trans hk)]

/-- No element of a scope lies in another one. -/
lemma Sound.eq_of_reflTransGen (h : c.Sound) {x y : Member}
    (hxy : c.containerOf x = c.containerOf y) (hreach : ReflTransGen c.LiesIn x y) : x = y := by
  rcases reflTransGen_iff_eq_or_transGen.mp hreach with heq | hinside
  · exact heq.symm
  · have hlt := h.surrounding_lt hinside
    rw [surrounding, surrounding, hxy] at hlt
    exact absurd hlt (lt_irrefl _)

/-- A node is in no two elements of the same scope. -/
lemma Sound.eq_of_holds (h : c.Sound) {x y : Member} {n : Nat}
    (hxy : c.containerOf x = c.containerOf y) (hx : c.Holds x n) (hy : c.Holds y n) : x = y := by
  -- of two elements around a node one lies in the other
  rcases ReflTransGen.total_of_right_unique rightUnique_liesIn hx hy with hreach | hreach
  · exact h.eq_of_reflTransGen hxy hreach
  · exact (h.eq_of_reflTransGen hxy.symm hreach).symm

/-! ### The order of members -/

/-- **The members of a scope are in the order of their first nodes**, and those
without nodes come last. -/
lemma Sound.pairwise_precedes_members (h : c.Sound) (container : Option Nat) :
    (c.scopeOf container).members.Pairwise fun x y => Precedes (c.Holds x) (c.Holds y) := by
  refine ((c.pairwise_le_members container).and (c.nodup_members container)).imp_of_mem ?_
  rintro x y hx hy ⟨hle, hne⟩ n hn
  have hxy := (mem_members.mp hx).2.trans (mem_members.mp hy).2.symm
  rw [Key.le_iff] at hle
  obtain ⟨hempty, hfirst, hleast⟩ | ⟨-, hnone⟩ := h.keyOf_cases y
  · obtain ⟨hempty', hfirst', -⟩ | ⟨hempty', -⟩ := h.keyOf_cases x
    · rw [hempty, hempty'] at hle
      have hlt : (c.keyOf x).first < (c.keyOf y).first := by
        rcases hle with hle | ⟨-, hlt | ⟨heq, -⟩⟩
        · exact absurd hle (lt_irrefl _)
        · exact hlt
        · exact absurd (h.eq_of_holds hxy (heq ▸ hfirst') hfirst) hne
      exact ⟨_, hlt.trans_le (hleast n hn), hfirst'⟩
    · rw [hempty, hempty'] at hle
      rcases hle with hlt | ⟨heq, -⟩
      · exact absurd hlt (by decide)
      · cases heq
  · exact absurd hn (hnone n)

end Containment

/-! ### Parts -/

/-- A member of a part is a node or contains it, directly or in its clusters. -/
def Component.Holds {α : Type} (c : Containment α) (s : Scope) (p : Component) (n : Nat) : Prop :=
  ∃ v ∈ p.members, ∃ x, s.members[v]? = some x ∧ c.Holds x n

namespace Component

variable {s : Scope} {p : Component}

/-- The members of a part are in ascending order. -/
lemma pairwise_lt_members (hp : p ∈ ofScope s) : p.members.Pairwise (· < ·) := by
  obtain ⟨root, -, -, hmembers, -⟩ := exists_root hp
  rw [hmembers]
  exact List.pairwise_lt_range.filter _

/-- Every member of a scope is in a part, and in one only. -/
lemma flatMap_members_perm (hs : s.WellFormed) :
    ((ofScope s).flatMap (·.members)).Perm (List.range s.members.length) := by
  have hnodup : ((ofScope s).flatMap (·.members)).Nodup :=
    List.nodup_flatMap.mpr ⟨fun p hp => nodup_of_mem_ofScope hp, pairwise_disjoint s⟩
  refine (List.perm_ext_iff_of_nodup hnodup List.nodup_range).mpr fun v => ?_
  rw [List.mem_flatMap, List.mem_range]
  constructor
  · rintro ⟨p, hp, hv⟩
    exact lt_of_mem hp hv
  · exact fun hv => exists_of_member hs hv

/-- A part has the edges between its members. -/
lemma edges_eq (hs : s.WellFormed) (hp : p ∈ ofScope s) :
    p.edges = s.edges.filter fun e => decide (e.source ∈ p.members ∧ e.target ∈ p.members) := by
  obtain ⟨root, -, -, hmembers, hedges⟩ := exists_root hp
  rw [hedges]
  refine List.filter_congr fun e he => ?_
  obtain ⟨hsource, htarget⟩ := hs e he
  have hlabel := label_source_eq_target hs he
  simp [hmembers, hsource, htarget, ← hlabel, beq_eq_decide]

/-- The parts are in the order of their first members: a part has a member
before all of a later one. -/
lemma pairwise_first (hs : s.WellFormed) :
    (ofScope s).Pairwise fun p q => ∃ r ∈ p.members, ∀ v ∈ q.members, r < v := by
  have hl := labelled_labelsOf hs
  rw [ofScope]
  refine List.pairwise_map.mpr ((List.pairwise_lt_range.filter _).imp_of_mem
    fun {r r'} hr _ hlt => ?_)
  refine ⟨r, ?_, fun v hv => ?_⟩
  · simpa using hr
  · obtain ⟨-, hlabel⟩ := List.mem_filter.mp hv
    have hle := hl.le v
    rw [beq_iff_eq] at hlabel
    exact hlt.trans_le (hlabel ▸ hle)

/-- Members that edges connect are the same when one of them is in a part without edges. -/
lemma eq_of_linked_of_edges_eq_nil (hs : s.WellFormed) (hp : p ∈ ofScope s) (hnil : p.edges = [])
    {v w : Nat} (h : s.Linked v w) : v ∈ p.members ∨ w ∈ p.members → v = w := by
  induction h with
  | rel v w hvw =>
      obtain ⟨e, he, rfl, rfl⟩ := hvw
      have hlinked : s.Linked e.source e.target := EqvGen.rel _ _ ⟨e, he, rfl, rfl⟩
      intro hmem
      have hboth : e.source ∈ p.members ∧ e.target ∈ p.members := by
        rcases hmem with hsource | htarget
        · exact ⟨hsource, (mem_iff_linked hs hp hsource).mpr ⟨(hs e he).2, hlinked⟩⟩
        · exact ⟨(mem_iff_linked hs hp htarget).mpr ⟨(hs e he).1, hlinked.symm _ _⟩, htarget⟩
      have hedge : e ∈ p.edges := by
        rw [edges_eq hs hp, List.mem_filter, decide_eq_true_eq]
        exact ⟨he, hboth⟩
      rw [hnil] at hedge
      cases hedge
  | refl v => exact fun _ => rfl
  | symm v w _ ih => exact fun h => (ih h.symm).symm
  | trans u v w _ _ ih ih' =>
      rintro (hu | hw)
      · obtain rfl := ih (Or.inl hu)
        exact ih' (Or.inl hu)
      · obtain rfl := ih' (Or.inr hw)
        exact ih (Or.inr hw)

variable {α : Type} {c : Containment α}

/-- Parts of sorted members are sorted. -/
lemma pairwise_precedes (hs : s.WellFormed)
    (horder : s.members.Pairwise fun x y => Precedes (c.Holds x) (c.Holds y)) :
    (ofScope s).Pairwise fun p q => Precedes (p.Holds c s) (q.Holds c s) := by
  refine (pairwise_first hs).imp_of_mem fun {p q} hp _ hfirst => ?_
  obtain ⟨r, hr, hbefore⟩ := hfirst
  rintro n ⟨v, hv, y, hy, hn⟩
  obtain ⟨hv', rfl⟩ := List.getElem?_eq_some_iff.mp hy
  have hr' := lt_of_mem hp hr
  obtain ⟨k, hk, hholds⟩ := List.pairwise_iff_getElem.mp horder r v hr' hv' (hbefore v hv) n hn
  exact ⟨k, hk, r, hr, _, List.getElem?_eq_getElem hr', hholds⟩

end Component

namespace Containment

variable {α : Type} {c : Containment α} {container : Option Nat} {p : Component}

/-- A part without nodes has no edges, since each connects members that hold its ends. -/
lemma Sound.edges_eq_nil (h : c.Sound) (hp : p ∈ Component.ofScope (c.scopeOf container))
    (hnone : ∀ n, ¬ p.Holds c (c.scopeOf container) n) : p.edges = [] := by
  refine List.eq_nil_iff_forall_not_mem.mpr fun e he => ?_
  obtain ⟨n, -, -, -, hsource, -⟩ := of_mem_edges (Component.mem_edges_of_mem hp he)
  exact hnone n ⟨e.source, Component.source_mem (c.wellFormed_scopeOf container) hp he, _, hsource,
    h.reflTransGen_representative container n⟩

/-- **A part without nodes is an empty cluster.** -/
lemma Sound.exists_cluster (h : c.Sound) (hp : p ∈ Component.ofScope (c.scopeOf container))
    (hnone : ∀ n, ¬ p.Holds c (c.scopeOf container) n) :
    ∃ v k, p.members = [v] ∧ (c.scopeOf container).members[v]? = some (.cluster k) := by
  have hs := c.wellFormed_scopeOf container
  obtain ⟨v, hv⟩ := List.exists_mem_of_ne_nil _ (Component.members_ne_nil hp)
  have hlt := Component.lt_of_mem hp hv
  have hsingle : p.members = [v] := by
    refine List.perm_singleton.mp ((List.perm_ext_iff_of_nodup
      (Component.nodup_of_mem_ofScope hp) (List.nodup_singleton v)).mpr fun w => ?_)
    rw [List.mem_singleton]
    constructor
    · intro hw
      have hlinked := ((Component.mem_iff_linked hs hp hv).mp hw).2
      exact (Component.eq_of_linked_of_edges_eq_nil hs hp (h.edges_eq_nil hp hnone) hlinked
        (Or.inl hv)).symm
    · rintro rfl
      exact hv
  have hmember := List.getElem?_eq_getElem hlt
  cases hx : (c.scopeOf container).members[v] with
  | node n => exact absurd ⟨v, hv, _, hmember, hx ▸ holds_node.mpr rfl⟩ (hnone n)
  | cluster k => exact ⟨v, k, hsingle, hx ▸ hmember⟩

/-- A scope falls into parts. -/
structure FallsInto (c : Containment α) (s : Scope) (parts : List Component) : Prop where
  /-- Every member of the scope is in a part, and in one only. -/
  partition : (parts.flatMap (·.members)).Perm (List.range s.members.length)
  /-- A part has members, in ascending order. -/
  members : ∀ p ∈ parts, p.members ≠ [] ∧ p.members.Pairwise (· < ·)
  /-- Its members are all those that edges connect with one of them. -/
  linked : ∀ p ∈ parts, ∀ v ∈ p.members, ∀ w,
    w ∈ p.members ↔ w < s.members.length ∧ s.Linked v w
  /-- A part has the edges between its members, in the order of the scope. -/
  edges : ∀ p ∈ parts, p.edges =
    s.edges.filter fun e => decide (e.source ∈ p.members ∧ e.target ∈ p.members)
  /-- Of two parts the first has a node before any node of the second. -/
  order : parts.Pairwise fun p q => Precedes (p.Holds c s) (q.Holds c s)
  /-- A part without nodes is an empty cluster. -/
  nodeless : ∀ p ∈ parts, (∀ n, ¬ p.Holds c s n) →
    ∃ v k, p.members = [v] ∧ s.members[v]? = some (.cluster k)

/-- A scope falls into its connected components, in the order of their first nodes. -/
lemma Sound.fallsInto (h : c.Sound) (container : Option Nat) :
    c.FallsInto (c.scopeOf container) (Component.ofScope (c.scopeOf container)) := by
  have hs := c.wellFormed_scopeOf container
  constructor
  case partition => exact Component.flatMap_members_perm hs
  case members =>
    exact fun p hp => ⟨Component.members_ne_nil hp, Component.pairwise_lt_members hp⟩
  case linked => exact fun p hp v hv w => Component.mem_iff_linked hs hp hv
  case edges => exact fun p hp => Component.edges_eq hs hp
  case order => exact Component.pairwise_precedes hs (h.pairwise_precedes_members container)
  case nodeless => exact fun p hp hnone => h.exists_cluster hp hnone

lemma ofModel_of_build {limit : Nat} {m : Model α} (h : build limit m = .ok c) : ofModel m = c := by
  rw [build] at h
  split at h
  · cases h
  · exact Except.ok.inj h

/-- **The parts of a scope.**  The scopes of a graph fall into their connected components.  A
component comes before another when it has an earlier node, in the order in which nodes are first
declared, and components without nodes, which are empty clusters, come last. -/
theorem scopes_fall_into_parts {limit : Nat} {m : Model α} {c : Containment α}
    (h : build limit m = .ok c) :
    c.nodes.map (·.id) = (m.nodes.map (·.id)).eraseDups ∧
      ∀ s ∈ c.scopes, c.FallsInto s (Component.ofScope s) := by
  obtain rfl := ofModel_of_build h
  refine ⟨Declared.map_firsts Node.id m.nodes, fun s hs => ?_⟩
  obtain ⟨container, -, rfl⟩ := mem_scopes.mp hs
  exact (sound_ofModel m).fallsInto container

/-- A part that has its first node inside two clusters and its other nodes after that of the second
part, and an empty cluster that is declared before all others. -/
theorem parts_with_an_empty_cluster :
    let m : Model Rat :=
      { nodes := [{ id := "a", parent := some "q" }, { id := "b" },
          { id := "c", parent := some "r" }, { id := "d" }]
        edges := [{ source := "d", target := "a" }, { source := "c", target := "a" },
          { source := "b", target := "b" }]
        clusters := [{ id := "e" }, { id := "p" }, { id := "q", parent := some "p" },
          { id := "r" }] }
    ∃ c, build 2 m = .ok c ∧ (∀ s ∈ c.scopes, c.FallsInto s (Component.ofScope s)) ∧
      c.scopes.map (·.members) =
        [[.cluster 1, .node 1, .cluster 3, .node 3, .cluster 0], [], [.cluster 2],
          [.node 0], [.node 2]] ∧
      c.scopes.map Component.ofScope =
        [[⟨[0, 2, 3], [⟨0, 3, 0⟩, ⟨1, 2, 0⟩]⟩, ⟨[1], [⟨2, 1, 1⟩]⟩, ⟨[4], []⟩],
          [], [⟨[0], []⟩], [⟨[0], []⟩], [⟨[0], []⟩]] := by
  intro m
  have hdepth : ¬ 2 < (ofModel m).depth := by cbv
  have hbuild : build 2 m = .ok (ofModel m) := by rw [build, if_neg hdepth]
  exact ⟨ofModel m, hbuild, (scopes_fall_into_parts hbuild).2, by cbv, by cbv⟩

end Containment

end Drafting.Graph
