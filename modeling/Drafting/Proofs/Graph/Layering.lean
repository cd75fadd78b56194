import Mathlib
import Drafting.Graph.Ordering

/-!
The nodes of a layered graph.

* `Layering.getElem?_nodes_ofEdges`: the members come first, with the ranks and sizes they had.
* `Layering.mem_nodes_ofEdges`: every other node is a routing point on a rank that some member lies
  beyond.
* `Layering.rank_lt_rankCount`: there are as many ranks as nodes need.
-/

namespace Drafting.Graph.Layering

variable {α : Type} [Scalar α] {width : α} {named : Nat} {members : List (MemberShape α)}
    {edges : List (Nat × Nat)}

/-! ### Routing points -/

omit [Scalar α] in
/-- The routing points of an edge lie on the ranks between its ends. -/
lemma mem_cutFrom {rank : Nat → Nat} {edge free : Nat} {cut : Cut}
    (h : cut ∈ cutFrom rank edge free edges) :
    ∃ e ∈ edges, cut.ranks = List.range' (rank e.1 + 1) (rank e.2 - rank e.1 - 1) := by
  induction edges generalizing edge free with
  | nil => simp [cutFrom] at h
  | cons e edges ih =>
      rw [cutFrom] at h
      rcases List.mem_cons.mp h with rfl | h
      · exact ⟨e, by simp, rfl⟩
      · obtain ⟨f, hf, hranks⟩ := ih h
        exact ⟨f, by simp [hf], hranks⟩

lemma mem_routingPoints {cut : Cut} {n : LayerNode α} (h : n ∈ routingPoints width named cut) :
    n.rank ∈ cut.ranks ∧ n.extent = Extent.symmetric width ∧ n.height = 0 := by
  rw [routingPoints, List.mem_mapIdx] at h
  obtain ⟨i, hi, rfl⟩ := h
  exact ⟨List.getElem_mem hi, rfl, rfl⟩

lemma mem_allRoutingPoints {cuts : List Cut} {n : LayerNode α}
    (h : n ∈ allRoutingPoints width named cuts) :
    ∃ cut ∈ cuts, n.rank ∈ cut.ranks ∧ n.extent = Extent.symmetric width ∧ n.height = 0 := by
  induction cuts generalizing named with
  | nil => simp [allRoutingPoints] at h
  | cons cut cuts ih =>
      rw [allRoutingPoints, List.mem_append] at h
      rcases h with h | h
      · exact ⟨cut, by simp, mem_routingPoints h⟩
      · obtain ⟨c, hc, hn⟩ := ih h
        exact ⟨c, by simp [hc], hn⟩

/-! ### Ranks -/

omit [Scalar α] in
lemma rank_lt_foldl {members : List (MemberShape α)} (start : Nat) :
    start ≤ members.foldl (fun n shape => max n (shape.rank + 1)) start ∧
      ∀ shape ∈ members, shape.rank <
        members.foldl (fun n shape => max n (shape.rank + 1)) start := by
  induction members generalizing start with
  | nil => simp
  | cons first members ih =>
      obtain ⟨hstart, hall⟩ := ih (max start (first.rank + 1))
      rw [List.foldl_cons]
      refine ⟨by omega, fun shape hshape => ?_⟩
      rcases List.mem_cons.mp hshape with rfl | hshape
      · omega
      · exact hall shape hshape

/-- A member lies on one of the ranks. -/
lemma rank_lt_of_mem {shape : MemberShape α} (h : shape ∈ members) :
    shape.rank < (ofEdges width named members edges).rankCount :=
  (rank_lt_foldl 0).2 shape h

/-- The members come first. -/
lemma getElem?_nodes_ofEdges {i : Nat} {shape : MemberShape α} (h : members[i]? = some shape) :
    (ofEdges width named members edges).nodes[i]? =
      some ⟨.member i, shape.rank, shape.extent, shape.height, none⟩ := by
  obtain ⟨hi, rfl⟩ := List.getElem?_eq_some_iff.mp h
  simp only [ofEdges, List.getElem?_toArray]
  rw [List.getElem?_append_left (by simpa using hi), List.getElem?_mapIdx,
    List.getElem?_eq_getElem hi]
  rfl

/-- Nodes are members or routing points. -/
lemma mem_nodes_ofEdges {n : LayerNode α} (h : n ∈ (ofEdges width named members edges).nodes) :
    (∃ shape ∈ members, n.rank = shape.rank ∧ n.extent = shape.extent ∧ n.height = shape.height) ∨
      n.rank < (ofEdges width named members edges).rankCount ∧ n.extent = Extent.symmetric width ∧
      n.height = 0 := by
  rw [ofEdges, List.mem_toArray, List.mem_append, List.mem_mapIdx] at h
  rcases h with ⟨i, hi, rfl⟩ | h
  · exact Or.inl ⟨members[i], List.getElem_mem hi, rfl, rfl, rfl⟩
  · obtain ⟨cut, hcut, hrank, hextent, hheight⟩ := mem_allRoutingPoints h
    obtain ⟨e, -, hranks⟩ := mem_cutFrom hcut
    refine Or.inr ⟨?_, hextent, hheight⟩
    rw [hranks, List.mem_range'_1] at hrank
    -- the end of the edge lies beyond the rank, so it is a member
    cases htarget : members.toArray[e.2]? with
    | none =>
        simp only [htarget, Option.map_none, Option.getD_none] at hrank
        omega
    | some shape =>
        simp only [htarget, Option.map_some, Option.getD_some] at hrank
        rw [List.getElem?_toArray] at htarget
        have hlt : shape.rank < (ofEdges width named members edges).rankCount :=
          rank_lt_of_mem (List.mem_of_getElem? htarget)
        omega

/-- Every node lies on one of the ranks. -/
lemma rank_lt_rankCount {v : Nat} (hv : v < (ofEdges width named members edges).nodes.size) :
    Layers.rankOf (ofEdges width named members edges) v <
      (ofEdges width named members edges).rankCount := by
  rw [Layers.rankOf, Array.getElem?_eq_getElem hv, Option.map_some, Option.getD_some]
  rcases mem_nodes_ofEdges (Array.getElem_mem hv) with ⟨shape, hshape, hrank, -⟩ | ⟨hrank, -⟩
  · rw [hrank]
    exact rank_lt_of_mem hshape
  · exact hrank

end Drafting.Graph.Layering
