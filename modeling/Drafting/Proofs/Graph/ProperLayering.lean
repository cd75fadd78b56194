import Mathlib
import Drafting.Proofs.Graph.Crossings
import Drafting.Proofs.Graph.Routes

/-!
Cutting edges gives a proper layered graph.

Nodes, segments and chains are numbered in one pass over the edges, and everything later finds its
way by these numbers.

* `Layering.Oriented`: edges between members along which ranks do not fall.
* `Layering.Cuts`: which nodes, chains and segments a layered graph has.
* `Layering.IsProper`: besides, segments lead to the next rank, and each routing point
  stands between two nodes of one chain; `Layering.Cuts.isProper`: this follows from the
  nodes, chains and segments.
* `Layering.cuts_ofEdges`: so are the layered graphs that come from cutting edges.
-/

namespace Drafting.Graph

/-! ### Lists -/

section Lists

variable {β γ : Type}

/-- Where all entries but one yield nothing, the list yields what that one does. -/
lemma flatMap_filter_of_unique {p : β → Bool} {f : β → List γ} {xs : List β} {i : Nat} {x : β}
    (hx : xs[i]? = some x) (hp : p x = true) (h : ∀ j y, xs[j]? = some y → j ≠ i → f y = []) :
    (xs.filter p).flatMap f = f x := by
  induction xs generalizing i with
  | nil => cases hx
  | cons y ys ih =>
      cases i with
      | zero =>
          obtain rfl := Option.some.inj hx
          have hrest : (ys.filter p).flatMap f = [] := by
            refine List.flatMap_eq_nil_iff.mpr fun z hz => ?_
            obtain ⟨j, hj⟩ := List.mem_iff_getElem?.mp (List.mem_filter.mp hz).1
            exact h (j + 1) z hj (Nat.succ_ne_zero j)
          rw [List.filter_cons_of_pos hp, List.flatMap_cons, hrest, List.append_nil]
      | succ i =>
          have hfirst : f y = [] := h 0 y rfl (Nat.succ_ne_zero i).symm
          have hrest := ih hx fun j z hz hne => h (j + 1) z hz (by omega)
          rw [List.filter_cons]
          split
          · rw [List.flatMap_cons, hfirst, List.nil_append, hrest]
          · exact hrest

lemma mem_of_mem_zip_tail {xs : List β} {p : β × β} (hp : p ∈ xs.zip xs.tail) :
    p.1 ∈ xs ∧ p.2 ∈ xs :=
  ⟨(List.of_mem_zip hp).1, List.mem_of_mem_tail (List.of_mem_zip hp).2⟩

/-- The neighbouring pairs of a list, by their position. -/
lemma mem_zip_tail {xs : List β} {p : β × β} :
    p ∈ xs.zip xs.tail ↔ ∃ j : Nat, xs[j]? = some p.1 ∧ xs[j + 1]? = some p.2 := by
  simp only [List.mem_iff_getElem?, List.getElem?_zip_eq_some, List.getElem?_tail]

/-- An entry that is neither first nor last stands between two others. -/
lemma exists_mem_zip_tail (first last : β) {x : β} {xs : List β} (hx : x ∈ xs) :
    ∃ u w, (u, x) ∈ (first :: (xs ++ [last])).zip (xs ++ [last]) ∧
      (x, w) ∈ (first :: (xs ++ [last])).zip (xs ++ [last]) := by
  obtain ⟨j, hj⟩ := List.mem_iff_getElem?.mp hx
  have hlt := (List.getElem?_eq_some_iff.mp hj).1
  set ys := first :: (xs ++ [last]) with hys
  have hlength : ys.length = xs.length + 2 := by simp [hys]
  have hthis : ys[j + 1]? = some x := by
    rw [hys, List.getElem?_cons_succ, List.getElem?_append_left hlt, hj]
  obtain ⟨u, hu⟩ : ∃ u, ys[j]? = some u := ⟨_, List.getElem?_eq_getElem (by omega)⟩
  obtain ⟨w, hw⟩ : ∃ w, ys[j + 1 + 1]? = some w := ⟨_, List.getElem?_eq_getElem (by omega)⟩
  exact ⟨u, w, mem_zip_tail.mpr ⟨j, hu, hthis⟩, mem_zip_tail.mpr ⟨j + 1, hthis, hw⟩⟩

end Lists

namespace Layering

variable {α : Type}

/-! ### What a layered graph is made of -/

/-- Edges between members along which ranks do not fall. -/
def Oriented (members : List (MemberShape α)) (edges : List (Nat × Nat)) : Prop :=
  ∀ e ∈ edges, ∃ a b, members[e.1]? = some a ∧ members[e.2]? = some b ∧ a.rank ≤ b.rank

/-- The nodes, chains and segments of a layered graph in which edges between members are cut. -/
structure Cuts (g : Layering α) (members : List (MemberShape α)) (edges : List (Nat × Nat)) :
    Prop where
  /-- The members come first, with the ranks and sizes they had. -/
  member : ∀ (v : Nat) (shape : MemberShape α), members[v]? = some shape →
    g.nodes[v]? = some ⟨.member v, shape.rank, shape.extent, shape.height, none⟩
  /-- The nodes after them are routing points of the edges, and have names. -/
  routing : ∀ (v : Nat) (n : LayerNode α), members.length ≤ v → g.nodes[v]? = some n →
    (∃ i < edges.length, n.kind = .routing i) ∧ n.id.isSome
  /-- There is one chain for each edge. -/
  length : g.chains.length = edges.length
  /-- It runs from one end of the edge to the other through the routing points of this edge, all of
  them, one for each rank strictly between in the order of ranks. -/
  chain : ∀ (i a b : Nat), edges[i]? = some (a, b) → ∃ points,
    g.chains[i]? = some (a :: (points ++ [b])) ∧
    points.map (Layers.rankOf g) =
      List.range' (Layers.rankOf g a + 1) (Layers.rankOf g b - Layers.rankOf g a - 1) ∧
    ∀ v, v ∈ points ↔ ∃ n, g.nodes[v]? = some n ∧ n.kind = .routing i
  /-- The segments are the neighbouring pairs along the chains of edges between different ranks. -/
  segments : g.segments =
    ((edges.zip g.chains).filter fun p => Layers.rankOf g p.1.1 < Layers.rankOf g p.1.2).flatMap
      fun p => p.2.zip p.2.tail

/-- A layered graph in which edges between members are cut so that every segment leads to the next
rank, and every routing point is passed once. -/
structure IsProper (g : Layering α) (members : List (MemberShape α)) (edges : List (Nat × Nat)) :
    Prop extends Cuts g members edges where
  /-- Every segment runs from a node to one of the next rank. -/
  stepwise : g.Stepwise
  /-- A routing point of an edge is once on the chain of this edge, and on no other. -/
  count : ∀ (v : Nat) (n : LayerNode α) (i : Nat), g.nodes[v]? = some n → n.kind = .routing i →
    ∀ (k : Nat) (chain : List Nat), g.chains[k]? = some chain →
      chain.count v = if k = i then 1 else 0
  /-- It has one node before it and one after it. -/
  between : ∀ (v : Nat) (n : LayerNode α) (i : Nat), g.nodes[v]? = some n → n.kind = .routing i →
    ∃ u w, g.predecessors[v]? = some [u] ∧ g.successors[v]? = some [w]

/-! ### What follows from the nodes, chains and segments -/

lemma getElem?_adjacency {count v : Nat} (hv : v < count) (pairs : List (Nat × Nat)) :
    (adjacency count pairs)[v]? = some ((pairs.filter (·.1 = v)).map Prod.snd) := by
  have hsize : v < (adjacency count pairs).size := (size_adjacency count pairs).symm ▸ hv
  rw [← getD_adjacency hv, Array.getD_eq_getD_getElem?, Array.getElem?_eq_getElem hsize,
    Option.getD_some]

lemma getElem?_predecessors {g : Layering α} {v : Nat} (hv : v < g.nodes.size) :
    g.predecessors[v]? = some ((g.segments.filter (·.2 = v)).map Prod.fst) := by
  rw [predecessors, getElem?_adjacency hv, List.filter_map, List.map_map]
  rfl

/-- Routing points come after the members. -/
lemma le_of_routing {g : Layering α} {members : List (MemberShape α)}
    (hmember : ∀ (v : Nat) (shape : MemberShape α), members[v]? = some shape →
      g.nodes[v]? = some ⟨.member v, shape.rank, shape.extent, shape.height, none⟩)
    {v i : Nat} {n : LayerNode α} (hn : g.nodes[v]? = some n) (hkind : n.kind = .routing i) :
    members.length ≤ v := by
  by_contra hlt
  rw [hmember v _ (List.getElem?_eq_getElem (Nat.lt_of_not_le hlt))] at hn
  obtain rfl := Option.some.inj hn
  cases hkind

namespace Cuts

variable {g : Layering α} {members : List (MemberShape α)} {edges : List (Nat × Nat)}
    {points : List Nat} {i a b v : Nat} {n : LayerNode α}

lemma lt_size (h : g.Cuts members edges) (hv : v < members.length) : v < g.nodes.size :=
  (Array.getElem?_eq_some_iff.mp (h.member v _ (List.getElem?_eq_getElem hv))).1

/-- The ends of an edge are members. -/
lemma ends_lt (hedges : Oriented members edges) (hi : edges[i]? = some (a, b)) :
    a < members.length ∧ b < members.length := by
  obtain ⟨_, _, ha, hb, -⟩ := hedges _ (List.mem_of_getElem? hi)
  exact ⟨(List.getElem?_eq_some_iff.mp ha).1, (List.getElem?_eq_some_iff.mp hb).1⟩

/-- Every chain is that of an edge. -/
lemma exists_edge (h : g.Cuts members edges) {chain : List Nat}
    (hchain : g.chains[i]? = some chain) :
    ∃ a b, edges[i]? = some (a, b) := by
  have hi : i < edges.length := h.length ▸ (List.getElem?_eq_some_iff.mp hchain).1
  exact ⟨_, _, List.getElem?_eq_getElem hi⟩

section Chain

variable (hranks : points.map (Layers.rankOf g) =
  List.range' (Layers.rankOf g a + 1) (Layers.rankOf g b - Layers.rankOf g a - 1))
include hranks

lemma nodup_points : points.Nodup :=
  List.Nodup.of_map (Layers.rankOf g) (hranks ▸ List.nodup_range')

/-- An edge that passes a routing point leaves its rank. -/
lemma rankOf_lt_of_mem (hv : v ∈ points) : Layers.rankOf g a < Layers.rankOf g b := by
  have hlength := congrArg List.length hranks
  rw [List.length_map, List.length_range'] at hlength
  have hpos := List.length_pos_of_mem hv
  omega

/-- Ranks count up along a chain between different ranks. -/
lemma map_rankOf_chain (hlt : Layers.rankOf g a < Layers.rankOf g b) :
    (a :: (points ++ [b])).map (Layers.rankOf g) =
      List.range' (Layers.rankOf g a) (Layers.rankOf g b - Layers.rankOf g a + 1) := by
  obtain ⟨k, hk⟩ := Nat.exists_eq_add_of_lt hlt
  rw [List.map_cons, List.map_append, hranks, hk, List.map_cons, List.map_nil, hk]
  rw [show Layers.rankOf g a + k + 1 - Layers.rankOf g a - 1 = k by omega,
    show Layers.rankOf g a + k + 1 - Layers.rankOf g a + 1 = k + 1 + 1 by omega, List.range'_succ,
    List.range'_1_concat, show Layers.rankOf g a + 1 + k = Layers.rankOf g a + k + 1 by omega]

lemma nodup_chain (hlt : Layers.rankOf g a < Layers.rankOf g b) : (a :: (points ++ [b])).Nodup :=
  List.Nodup.of_map (Layers.rankOf g) (map_rankOf_chain hranks hlt ▸ List.nodup_range')

lemma rankOf_getElem?_chain (hlt : Layers.rankOf g a < Layers.rankOf g b) {j : Nat}
    (hj : (a :: (points ++ [b]))[j]? = some v) :
    Layers.rankOf g v = Layers.rankOf g a + j := by
  have hmap := congrArg (·[j]?) (map_rankOf_chain hranks hlt)
  simp only [List.getElem?_map, hj, Option.map_some] at hmap
  obtain ⟨_, hget⟩ := List.getElem?_eq_some_iff.mp hmap.symm
  rw [← hget, List.getElem_range', Nat.one_mul]

end Chain

/-- Every segment runs from a node to one of the next rank. -/
lemma stepwise (h : g.Cuts members edges) (hedges : Oriented members edges) : g.Stepwise := by
  intro e he
  rw [h.segments, List.mem_flatMap] at he
  obtain ⟨⟨⟨a, b⟩, chain⟩, hp, he⟩ := he
  obtain ⟨hzip, hlt⟩ := List.mem_filter.mp hp
  have hlt := of_decide_eq_true hlt
  obtain ⟨i, hi⟩ := List.mem_iff_getElem?.mp hzip
  obtain ⟨hedge, hchain⟩ := List.getElem?_zip_eq_some.mp hi
  obtain ⟨points, hpoints, hranks, hmem⟩ := h.chain i a b hedge
  obtain rfl : chain = a :: (points ++ [b]) := Option.some.inj (hchain.symm.trans hpoints)
  have hsize : ∀ v ∈ a :: (points ++ [b]), v < g.nodes.size := by
    intro v hv
    obtain ⟨ha, hb⟩ := ends_lt hedges hedge
    rw [List.mem_cons, List.mem_append, List.mem_singleton] at hv
    rcases hv with rfl | hv | rfl
    · exact h.lt_size ha
    · obtain ⟨n, hn, -⟩ := (hmem v).mp hv
      exact (Array.getElem?_eq_some_iff.mp hn).1
    · exact h.lt_size hb
  obtain ⟨hfirst, hsecond⟩ := mem_of_mem_zip_tail he
  obtain ⟨j, hj, hj'⟩ := mem_zip_tail.mp he
  refine ⟨hsize _ hfirst, hsize _ hsecond, ?_⟩
  rw [rankOf_getElem?_chain hranks hlt hj, rankOf_getElem?_chain hranks hlt hj', Nat.add_assoc]

/-- A routing point of an edge is once on the chain of this edge, and on no other. -/
lemma count_chain (h : g.Cuts members edges) (hedges : Oriented members edges)
    (hn : g.nodes[v]? = some n) (hkind : n.kind = .routing i) {k : Nat} {chain : List Nat}
    (hchain : g.chains[k]? = some chain) : chain.count v = if k = i then 1 else 0 := by
  obtain ⟨a, b, hedge⟩ := h.exists_edge hchain
  obtain ⟨points, hpoints, hranks, hmem⟩ := h.chain k a b hedge
  obtain rfl : chain = a :: (points ++ [b]) := Option.some.inj (hchain.symm.trans hpoints)
  -- the ends are members, so the routing point is counted between them
  obtain ⟨ha, hb⟩ := ends_lt hedges hedge
  have hle := le_of_routing h.member hn hkind
  rw [List.count_cons_of_ne (by omega), List.count_append, List.count_singleton,
    if_neg (by simp; omega), Nat.add_zero]
  split
  · next hki =>
      exact List.count_eq_one_of_mem (nodup_points hranks) ((hmem v).mpr ⟨n, hn, hki ▸ hkind⟩)
  · next hki =>
      refine List.count_eq_zero.mpr fun hv => hki ?_
      obtain ⟨n', hn', hkind'⟩ := (hmem v).mp hv
      obtain rfl := Option.some.inj (hn.symm.trans hn')
      exact LayerKind.routing.inj (hkind'.symm.trans hkind)

/-- The segments at a node that lies on one chain only are those of this chain. -/
lemma filter_segments (h : g.Cuts members edges) {key : Nat × Nat → Nat}
    (hkey : ∀ (chain : List Nat), ∀ p ∈ chain.zip chain.tail, key p ∈ chain)
    (hedge : edges[i]? = some (a, b)) (hlt : Layers.rankOf g a < Layers.rankOf g b)
    {chain : List Nat} (hchain : g.chains[i]? = some chain)
    (hother : ∀ k chain', g.chains[k]? = some chain' → k ≠ i → v ∉ chain') :
    g.segments.filter (key · = v) = (chain.zip chain.tail).filter (key · = v) := by
  have hi : (edges.zip g.chains)[i]? = some ((a, b), chain) :=
    List.getElem?_zip_eq_some.mpr ⟨hedge, hchain⟩
  rw [h.segments, List.filter_flatMap]
  refine flatMap_filter_of_unique hi (decide_eq_true hlt) fun k p hp hne => ?_
  refine List.filter_eq_nil_iff.mpr fun e he heq => ?_
  refine hother k p.2 (List.getElem?_zip_eq_some.mp hp).2 hne ?_
  rw [← of_decide_eq_true heq]
  exact hkey p.2 e he

/-- A routing point has one node before it and one after it. -/
lemma exists_between (h : g.Cuts members edges) (hedges : Oriented members edges)
    (hn : g.nodes[v]? = some n) (hkind : n.kind = .routing i) :
    ∃ u w, g.predecessors[v]? = some [u] ∧ g.successors[v]? = some [w] := by
  obtain ⟨hsize, -⟩ := Array.getElem?_eq_some_iff.mp hn
  obtain ⟨⟨k, hk, hkind'⟩, -⟩ := h.routing v n (le_of_routing h.member hn hkind) hn
  obtain rfl : i = k := LayerKind.routing.inj (hkind.symm.trans hkind')
  have hedge : edges[i]? = some (edges[i].1, edges[i].2) := List.getElem?_eq_getElem hk
  obtain ⟨points, hchain, hranks, hmem⟩ := h.chain i _ _ hedge
  set a := edges[i].1
  set b := edges[i].2
  have hv : v ∈ points := (hmem v).mpr ⟨n, hn, hkind⟩
  have hlt := rankOf_lt_of_mem hranks hv
  have hnodup := nodup_chain hranks hlt
  have hother : ∀ k chain', g.chains[k]? = some chain' → k ≠ i → v ∉ chain' := by
    intro k chain' hchain' hne
    rw [← List.count_eq_zero, h.count_chain hedges hn hkind hchain', if_neg hne]
  obtain ⟨u, w, hbefore, hafter⟩ := exists_mem_zip_tail a b hv
  set chain := a :: (points ++ [b])
  have hfirsts : ((chain.zip chain.tail).map Prod.fst).Nodup :=
    (map_fst_zip_sublist _ _).nodup hnodup
  have hseconds : ((chain.zip chain.tail).map Prod.snd).Nodup := by
    rw [List.map_snd_zip (by simp)]
    exact hnodup.tail
  refine ⟨u, w, ?_, ?_⟩
  · rw [getElem?_predecessors hsize,
      h.filter_segments (fun _ _ hp => (mem_of_mem_zip_tail hp).2) hedge hlt hchain hother,
      filter_key_eq hseconds hbefore]
    rfl
  · rw [successors, getElem?_adjacency hsize,
      h.filter_segments (fun _ _ hp => (mem_of_mem_zip_tail hp).1) hedge hlt hchain hother,
      filter_key_eq hfirsts hafter]
    rfl

/-- **A layered graph that is made up so is proper.** -/
lemma isProper (h : g.Cuts members edges) (hedges : Oriented members edges) :
    g.IsProper members edges where
  toCuts := h
  stepwise := h.stepwise hedges
  count _ _ _ hn hkind _ _ hchain := h.count_chain hedges hn hkind hchain
  between _ _ _ hn hkind := h.exists_between hedges hn hkind

end Cuts

/-! ### Cutting edges -/

lemma consecutive_eq_zip_tail (xs : List Nat) : consecutive xs = xs.zip xs.tail := by
  induction xs with
  | nil => rfl
  | cons v xs ih =>
      cases xs with
      | nil => rfl
      | cons w xs => rw [consecutive, ih, List.tail_cons, List.tail_cons, List.zip_cons_cons]

/-- Segments lie along the chains of edges that leave their rank. -/
lemma segments_cutFrom (rank : Nat → Nat) (edge free : Nat) (edges : List (Nat × Nat)) :
    (cutFrom rank edge free edges).flatMap
        (fun cut => if cut.spans then consecutive cut.chain else []) =
      ((edges.zip ((cutFrom rank edge free edges).map (·.chain))).filter
        fun p => rank p.1.1 < rank p.1.2).flatMap fun p => p.2.zip p.2.tail := by
  induction edges generalizing edge free with
  | nil => rfl
  | cons e edges ih =>
      rw [cutFrom, List.flatMap_cons, ih, List.map_cons, List.zip_cons_cons, List.filter_cons]
      simp only [decide_eq_true_eq, consecutive_eq_zip_tail]
      split
      · rw [List.flatMap_cons]
      · rfl

variable [Scalar α]

/-- Each routing point has a name, and lies on the chain of the edge that it is for. -/
lemma exists_cut_of_routing {width : α} {rank : Nat → Nat} {edge free named : Nat}
    {edges : List (Nat × Nat)} {j : Nat} {n : LayerNode α}
    (h : (allRoutingPoints width named (cutFrom rank edge free edges))[j]? = some n) :
    ∃ i a b points, edges[i]? = some (a, b) ∧ n.kind = .routing (edge + i) ∧ n.id.isSome ∧
      ((cutFrom rank edge free edges).map (·.chain))[i]? = some (a :: (points ++ [b])) ∧
      free + j ∈ points := by
  induction edges generalizing edge free named j with
  | nil => simp [cutFrom, allRoutingPoints] at h
  | cons first edges ih =>
      obtain ⟨source, target⟩ := first
      rw [cutFrom, allRoutingPoints] at h
      set count := rank target - rank source - 1 with hcount
      have hlength : ∀ cut : Cut, cut.ranks = List.range' (rank source + 1) count →
          (routingPoints width named cut).length = count := by
        intro cut hcut
        simp [routingPoints, hcut]
      by_cases hj : j < count
      · rw [List.getElem?_append_left (by rw [hlength _ rfl]; exact hj), routingPoints,
          List.getElem?_mapIdx, List.getElem?_range' hj] at h
        obtain rfl := Option.some.inj h
        exact ⟨0, source, target, List.range' free count, rfl, rfl, rfl, rfl,
          List.mem_range'_1.mpr ⟨by omega, by omega⟩⟩
      · rw [List.getElem?_append_right (by rw [hlength _ rfl]; omega), hlength _ rfl,
          List.length_range'] at h
        obtain ⟨i, a, b, points, hi, hkind, hid, hchain, hmem⟩ := ih h
        refine ⟨i + 1, a, b, points, hi, by rw [hkind]; congr 1; omega, hid, hchain, ?_⟩
        rwa [show free + count + (j - count) = free + j by omega] at hmem

variable {width : α} {named : Nat} {members : List (MemberShape α)} {edges : List (Nat × Nat)}

/-- The nodes after the members have names, and lie on the chains of the edges that they are for. -/
lemma exists_chain_of_le {v : Nat} {n : LayerNode α}
    (hn : (ofEdges width named members edges).nodes[v]? = some n) (hv : members.length ≤ v) :
    ∃ i a b points, edges[i]? = some (a, b) ∧ n.kind = .routing i ∧ n.id.isSome ∧
      (ofEdges width named members edges).chains[i]? = some (a :: (points ++ [b])) ∧
        v ∈ points := by
  simp only [ofEdges, List.getElem?_toArray] at hn
  rw [List.getElem?_append_right (by rw [List.length_mapIdx]; exact hv), List.length_mapIdx] at hn
  obtain ⟨i, a, b, points, hi, hkind, hid, hchain, hmem⟩ := exists_cut_of_routing hn
  rw [Nat.zero_add] at hkind
  rw [Nat.add_sub_cancel' hv] at hmem
  exact ⟨i, a, b, points, hi, hkind, hid, by simpa [ofEdges] using hchain, hmem⟩

/-- **The nodes, chains and segments that come from cutting edges.** -/
lemma cuts_ofEdges (hedges : Oriented members edges) :
    (ofEdges width named members edges).Cuts members edges where
  member _ _ hv := getElem?_nodes_ofEdges hv
  routing v n hv hn := by
    obtain ⟨i, _, _, _, hi, hkind, hid, -⟩ := exists_chain_of_le hn hv
    exact ⟨⟨i, (List.getElem?_eq_some_iff.mp hi).1, hkind⟩, hid⟩
  length := by simp [ofEdges, Component.length_cutFrom]
  chain i a b hi := by
    obtain ⟨ha, hb⟩ := Cuts.ends_lt hedges hi
    obtain ⟨points, hchain, halong⟩ := @exists_chain α _ width named members edges i a b hi ha hb
    refine ⟨points, hchain, halong.ranks, fun v => ⟨halong.routing v, ?_⟩⟩
    rintro ⟨n, hn, hkind⟩
    have hv := le_of_routing (fun _ _ => getElem?_nodes_ofEdges) hn hkind
    obtain ⟨k, a', b', points', hk, hkind', -, hchain', hmem⟩ := exists_chain_of_le hn hv
    obtain rfl : k = i := LayerKind.routing.inj (hkind'.symm.trans hkind)
    obtain ⟨rfl, heq⟩ := List.cons.inj (Option.some.inj (hchain.symm.trans hchain'))
    rwa [(List.append_inj' heq rfl).1]
  segments := by
    have hrank : ∀ v < members.length, (members.toArray[v]?.map (·.rank)).getD 0 =
        Layers.rankOf (ofEdges width named members edges) v := by
      intro v hv
      rw [rankOf_member hv, List.getElem?_toArray]
    refine (segments_cutFrom _ 0 members.length edges).trans
      (congrArg (List.flatMap _) (List.filter_congr fun p hp => ?_))
    obtain ⟨k, hk⟩ := List.mem_iff_getElem?.mp (List.of_mem_zip hp).1
    obtain ⟨ha, hb⟩ := Cuts.ends_lt hedges hk
    rw [hrank _ ha, hrank _ hb]

lemma proper_ofEdges (hedges : Oriented members edges) :
    (ofEdges width named members edges).Proper :=
  ⟨fun _ hv => rank_lt_rankCount hv, (cuts_ofEdges hedges).stepwise hedges⟩

end Layering

/-! ### Parts -/

namespace Component

variable [Scalar α] {config : GraphConfig α} {sizes : Array (Size α)}
    {shapes : Array (EdgeShape α)} {s : Scope} {c : Component} {ranking : Ranking}

/-- The edges of a ranked part lead between its members, to ranks that are not before. -/
lemma oriented_of_ranked (hs : s.WellFormed)
    (hc : c ∈ ofScope s) (hranked : c.Ranked shapes ranking) :
    Layering.Oriented (c.memberShapes config sizes shapes ranking.ranks)
      (ranking.oriented.arcs.map fun a => (a.source, a.target)) := by
  have hshape : ∀ i < c.members.length, ∃ shape,
      (c.memberShapes config sizes shapes ranking.ranks)[i]? = some shape ∧
        shape.rank = ranking.ranks.getD i 0 := by
    intro i hi
    rw [memberShapes, List.getElem?_mapIdx, List.getElem?_eq_getElem hi]
    exact ⟨_, rfl, rfl⟩
  have hwell : ranking.oriented.WellFormed := by
    rw [hranked.oriented]
    exact (wellFormed_digraph shapes hs hc).orient _
  have hsize : ranking.oriented.size = c.members.length := by
    rw [hranked.oriented]
    rfl
  intro e he
  obtain ⟨arc, harc, rfl⟩ := List.mem_map.mp he
  obtain ⟨hsource, htarget⟩ := hwell arc harc
  obtain ⟨a, ha, harank⟩ := hshape arc.source (hsize ▸ hsource)
  obtain ⟨b, hb, hbrank⟩ := hshape arc.target (hsize ▸ htarget)
  refine ⟨a, b, ha, hb, ?_⟩
  rw [harank, hbrank]
  exact hranked.respects arc harc

/-- The layered graph of a ranked part is proper. -/
lemma proper_layering (hs : s.WellFormed) (hc : c ∈ ofScope s) (hranked : c.Ranked shapes ranking)
    (named : Nat) :
    (c.layering config sizes shapes named ranking).Proper :=
  Layering.proper_ofEdges (oriented_of_ranked hs hc hranked)

end Component

end Drafting.Graph
