import Mathlib
import Drafting.Proofs.Graph.Layering

/-!
The nodes along the edges of a layered graph.

* `ranksBetween`: the ranks that an edge passes.
* `Layering.Along`: routing points of an edge, on given ranks one by one.
* `Layering.exists_chain`: an edge passes one routing point of its own on each rank between its
  ends.
-/

namespace Drafting.Graph

/-- The ranks strictly between two ranks, from the first one to the second. -/
def ranksBetween (a b : Nat) : List Nat :=
  if a ≤ b then List.range' (a + 1) (b - a - 1) else (List.range' (b + 1) (a - b - 1)).reverse

lemma ranksBetween_of_le {a b : Nat} (h : a ≤ b) :
    ranksBetween a b = List.range' (a + 1) (b - a - 1) := if_pos h

lemma reverse_ranksBetween {a b : Nat} (h : a ≠ b) :
    (ranksBetween a b).reverse = ranksBetween b a := by
  rcases Nat.lt_or_gt_of_ne h with hlt | hlt
  · rw [ranksBetween, ranksBetween, if_pos hlt.le, if_neg (Nat.not_le.mpr hlt)]
  · rw [ranksBetween, ranksBetween, if_neg (Nat.not_le.mpr hlt), if_pos hlt.le,
      List.reverse_reverse]

lemma length_ranksBetween (a b : Nat) : (ranksBetween a b).length = (a - b) + (b - a) - 1 := by
  rw [ranksBetween]
  split
  · rw [List.length_range']
    omega
  · rw [List.length_reverse, List.length_range']
    omega

namespace Layering

variable {α : Type}

/-- Routing points of an edge, on given ranks one by one. -/
structure Along (g : Layering α) (edge : Nat) (ranks points : List Nat) : Prop where
  ranks : points.map (Layers.rankOf g) = ranks
  routing : ∀ v ∈ points, ∃ n, g.nodes[v]? = some n ∧ n.kind = .routing edge

lemma Along.reverse {g : Layering α} {edge : Nat} {ranks points : List Nat}
    (h : g.Along edge ranks points) : g.Along edge ranks.reverse points.reverse :=
  ⟨by rw [List.map_reverse, h.ranks], fun v hv => h.routing v (List.mem_reverse.mp hv)⟩

/-- Between two ranks there are as many routing points as ranks. -/
lemma Along.length_points {g : Layering α} {edge a b : Nat} {points : List Nat}
    (h : g.Along edge (ranksBetween a b) points) : points.length = (a - b) + (b - a) - 1 := by
  rw [← length_ranksBetween, ← h.ranks, List.length_map]

variable [Scalar α]

/-- Where the routing points of an edge stand among all of them. -/
lemma exists_cut (width : α) (rank : Nat → Nat) (edge free named : Nat) {edges : List (Nat × Nat)}
    {i a b : Nat} (h : edges[i]? = some (a, b)) :
    ∃ skip,
      ((cutFrom rank edge free edges).map (·.chain))[i]? =
        some (a :: (List.range' (free + skip) (rank b - rank a - 1) ++ [b])) ∧
      ∀ k < rank b - rank a - 1,
        ∃ n, (allRoutingPoints width named (cutFrom rank edge free edges))[skip + k]? = some n ∧
          n.kind = .routing (edge + i) ∧ n.rank = rank a + 1 + k := by
  induction edges generalizing edge free named i with
  | nil => cases h
  | cons first edges ih =>
      obtain ⟨source, target⟩ := first
      rw [cutFrom, allRoutingPoints]
      cases i with
      | zero =>
          obtain ⟨rfl, rfl⟩ := Prod.mk.inj (Option.some.inj h)
          refine ⟨0, rfl, fun k hk => ?_⟩
          rw [Nat.zero_add, List.getElem?_append_left (by simpa [routingPoints] using hk),
            routingPoints, List.getElem?_mapIdx, List.getElem?_range' hk]
          exact ⟨_, rfl, rfl, by simp⟩
      | succ i =>
          set count := rank target - rank source - 1 with hcount
          obtain ⟨skip, hchain, hpoints⟩ := ih (edge + 1) (free + count) (named + count) h
          refine ⟨count + skip, by rw [← Nat.add_assoc]; exact hchain, fun k hk => ?_⟩
          obtain ⟨n, hn, hkind, hrank⟩ := hpoints k hk
          refine ⟨n, ?_, by rw [hkind]; congr 1; omega, hrank⟩
          have hlength : ∀ cut : Cut, cut.ranks = List.range' (rank source + 1) count →
              (routingPoints width named cut).length = count := by
            intro cut hcut
            simp [routingPoints, hcut]
          rw [List.getElem?_append_right (by rw [hlength _ rfl]; omega), hlength _ rfl,
            List.length_range']
          rw [show count + skip + k - count = skip + k by omega]
          exact hn

variable {width : α} {named : Nat} {members : List (MemberShape α)} {edges : List (Nat × Nat)}

/-- The rank of a member in the layered graph. -/
lemma rankOf_member {v : Nat} (hv : v < members.length) :
    Layers.rankOf (ofEdges width named members edges) v = (members[v]?.map (·.rank)).getD 0 := by
  rw [Layers.rankOf, getElem?_nodes_ofEdges (List.getElem?_eq_getElem hv),
    List.getElem?_eq_getElem hv]
  rfl

/-- **An edge passes one routing point of its own on each rank between its ends.** -/
lemma exists_chain {i a b : Nat} (h : edges[i]? = some (a, b)) (ha : a < members.length)
    (hb : b < members.length) :
    let g := ofEdges width named members edges
    ∃ points, g.chains[i]? = some (a :: (points ++ [b])) ∧
      g.Along i (List.range' (Layers.rankOf g a + 1) (Layers.rankOf g b - Layers.rankOf g a - 1))
        points := by
  intro g
  rw [rankOf_member ha, rankOf_member hb]
  obtain ⟨skip, hchain, hpoints⟩ := exists_cut width
    (fun v => (members.toArray[v]?.map (·.rank)).getD 0) 0 members.length named h
  simp only [List.getElem?_toArray, Nat.zero_add] at hchain hpoints
  set low := (members[a]?.map (·.rank)).getD 0
  set count := (members[b]?.map (·.rank)).getD 0 - low - 1
  have hnode : ∀ k < count, ∃ n, g.nodes[members.length + skip + k]? = some n ∧
      n.kind = .routing i ∧ n.rank = low + 1 + k := by
    intro k hk
    obtain ⟨n, hn, hkind, hrank⟩ := hpoints k hk
    refine ⟨n, ?_, hkind, hrank⟩
    simp only [g, ofEdges, List.getElem?_toArray]
    rw [List.getElem?_append_right (by rw [List.length_mapIdx]; omega), List.length_mapIdx,
      show members.length + skip + k - members.length = skip + k by omega]
    exact hn
  refine ⟨List.range' (members.length + skip) count, ?_, ?_, fun v hv => ?_⟩
  · simpa only [g, ofEdges, List.getElem?_toArray] using hchain
  · refine List.ext_getElem (by simp) fun k hk _ => ?_
    rw [List.length_map, List.length_range'] at hk
    obtain ⟨n, hn, -, hrank⟩ := hnode k hk
    simp [Layers.rankOf, hn, hrank]
  · obtain ⟨k, hk, rfl⟩ := List.mem_range'.mp hv
    obtain ⟨n, hn, hkind, -⟩ := hnode k hk
    exact ⟨n, by rw [Nat.one_mul]; exact hn, hkind⟩

end Layering

end Drafting.Graph
