import Mathlib
import Drafting.Scalar.Exact
import Drafting.Proofs.Digraph.LongestPaths
import Drafting.Proofs.Graph.Components

/-!
The ranks of the members of a connected part.

* `Component.wellFormed_digraph`, `Component.loopless_digraph`: the graph of a part can be ranked.
* `Component.layout_eq_ok`: so every part is laid out.
* `Component.Drawn`: what a routed edge has to do with the ranks of the members it connects.
* `Component.ranks_are_longest_paths`: ranks are the largest lengths of paths, edges respect them,
  and no edge of a scope without cycles is reversed.
-/

namespace Drafting.Graph

namespace Scope

/-- An edge leads from one member to another one. -/
def Leads (s : Scope) (v w : Nat) : Prop :=
  ∃ e ∈ s.edges, e.source ≠ e.target ∧ e.source = v ∧ e.target = w

/-- The edges between different members form no cycle. -/
def Acyclic (s : Scope) : Prop := ∀ v, ¬ Relation.TransGen s.Leads v v

end Scope

/-- The rank of a member of a part. -/
def ComponentLayout.rank {α : Type} (l : ComponentLayout α) (i : Nat) : Nat :=
  (l.members[i]?.map (·.rank)).getD 0

namespace Component

variable {α : Type} {s : Scope} {c : Component}

/-! ### The graph of a part -/

lemma mem_links {e : ScopeEdge} : e ∈ c.links ↔ e ∈ c.edges ∧ e.source ≠ e.target := by
  simp [links]

lemma mem_loops {e : ScopeEdge} : e ∈ c.loops ↔ e ∈ c.edges ∧ e.source = e.target := by
  simp [loops]

/-- The least number of ranks that an edge spans. -/
def lengthOf (shapes : Array (EdgeShape α)) (edge : Nat) : Nat :=
  (shapes[edge]?.map (·.length)).getD 0

/-- The arc of an edge in the graph of a part. -/
def arcOf (c : Component) (shapes : Array (EdgeShape α)) (e : ScopeEdge) : Arc :=
  ⟨c.localIndex e.source, c.localIndex e.target, lengthOf shapes e.edge⟩

lemma arcs_digraph (shapes : Array (EdgeShape α)) :
    (c.digraph shapes).arcs = c.links.map (c.arcOf shapes) := rfl

variable (shapes : Array (EdgeShape α))

lemma wellFormed_digraph (hs : s.WellFormed) (hc : c ∈ ofScope s) :
    (c.digraph shapes).WellFormed := by
  intro a ha
  rw [arcs_digraph, List.mem_map] at ha
  obtain ⟨e, he, rfl⟩ := ha
  have hmem := (mem_links.mp he).1
  exact ⟨List.idxOf_lt_length_iff.mpr (source_mem hs hc hmem),
    List.idxOf_lt_length_iff.mpr (target_mem hs hc hmem)⟩

lemma loopless_digraph (hs : s.WellFormed) (hc : c ∈ ofScope s) : (c.digraph shapes).Loopless := by
  intro a ha heq
  rw [arcs_digraph, List.mem_map] at ha
  obtain ⟨e, he, rfl⟩ := ha
  obtain ⟨hmem, hne⟩ := mem_links.mp he
  exact hne ((List.idxOf_inj (source_mem hs hc hmem)).mp heq)

/-- A scope without cycles has parts without cycles. -/
lemma acyclic_digraph (hs : s.WellFormed) (hc : c ∈ ofScope s) (ha : s.Acyclic) :
    (c.digraph shapes).Acyclic := by
  -- a step of the part is a step of the scope between the members at these positions
  have hstep : ∀ v w, (c.digraph shapes).Adj v w →
      s.Leads (c.members.getD v 0) (c.members.getD w 0) := by
    rintro v w ⟨a, ha, rfl, rfl⟩
    rw [arcs_digraph, List.mem_map] at ha
    obtain ⟨e, he, rfl⟩ := ha
    obtain ⟨hmem, hne⟩ := mem_links.mp he
    have hsource := source_mem hs hc hmem
    have htarget := target_mem hs hc hmem
    refine ⟨e, mem_edges_of_mem hc hmem, hne, ?_, ?_⟩
    · simp [arcOf, localIndex, List.getElem?_idxOf hsource]
    · simp [arcOf, localIndex, List.getElem?_idxOf htarget]
  intro v hv
  exact ha _ (Relation.TransGen.lift (fun v => c.members.getD v 0) hstep v v hv)

/-! ### The layout of a part -/

section Layout

variable [Scalar α] {config : GraphConfig α} {sizes : Array (Size α)} {shapes}

omit [Scalar α] in
lemma length_cutFrom (rank : Nat → Nat) (edge free : Nat) (edges : List (Nat × Nat)) :
    (Layering.cutFrom rank edge free edges).length = edges.length := by
  induction edges generalizing edge free with
  | nil => rfl
  | cons e edges ih => simp [Layering.cutFrom, ih]

/-- There is one chain for each arc. -/
lemma length_chains (named : Nat) (ranking : Ranking) :
    (c.layering config sizes shapes named ranking).chains.length =
      ranking.oriented.arcs.length := by
  simp [layering, Layering.ofEdges, length_cutFrom]

/-- Edges are drawn one by one, those between members before the loops. -/
lemma forall₂_routes {reversed : List Nat} {r : Routing α}
    (hlength : r.layering.chains.length = c.links.length) {R : ScopeEdge → RoutedEdge α → Prop}
    (hlink : ∀ i e chain, c.links[i]? = some e →
      R e (r.link chain e.edge (c.localIndex e.source) (c.localIndex e.target) (reversed.contains i)
        (labelOf shapes e.edge)))
    (hloop : ∀ e ∈ c.loops, R e
      (r.selfLoop e.edge (c.localIndex e.source) (labelOf shapes e.edge))) :
    List.Forall₂ R (c.links ++ c.loops) (c.routes shapes reversed r) := by
  refine List.rel_append (List.forall₂_iff_get.mpr ⟨by simp [hlength], fun i hi _ => ?_⟩) ?_
  · simpa using hlink i _ _ (List.getElem?_eq_getElem hi)
  · exact List.forall₂_map_right_iff.mpr (List.forall₂_same.mpr hloop)

@[simp] lemma length_place (ranks : Array Nat) (layers : Layers) (placement : Placement α) :
    (c.place sizes ranks layers placement).length = c.members.length := by
  simp [place]

@[simp] lemma length_members_arrange (ranking : Ranking) (g : Layering α) :
    (c.arrange config sizes shapes ranking g).members.length = c.members.length := by
  simp [arrange]

lemma rank_arrange (ranking : Ranking) (g : Layering α) {i : Nat} (hi : i < c.members.length) :
    (c.arrange config sizes shapes ranking g).rank i = ranking.ranks.getD i 0 := by
  simp [ComponentLayout.rank, arrange, place, hi]

/-- What a drawn edge has to do with the ranks of the members it connects. -/
structure Drawn (c : Component) (shapes : Array (EdgeShape α)) (l : ComponentLayout α)
    (e : ScopeEdge) (r : RoutedEdge α) : Prop where
  /-- It is the edge that was to be drawn. -/
  edge : r.edge = e.edge
  /-- An edge that is not reversed leads down at least as many ranks as it is long. -/
  forward : e.source ≠ e.target → r.reversed = false →
    l.rank (c.localIndex e.source) + lengthOf shapes e.edge ≤ l.rank (c.localIndex e.target)
  /-- A reversed edge leads up at least as many ranks as it is long. -/
  backward : e.source ≠ e.target → r.reversed = true →
    l.rank (c.localIndex e.target) + lengthOf shapes e.edge ≤ l.rank (c.localIndex e.source)
  /-- A loop is not reversed. -/
  loop : e.source = e.target → r.reversed = false

@[simp] lemma edge_link (r : Routing α) (chain : List Nat) (edge source target : Nat)
    (reversed : Bool) (label : Option (Size α)) :
    (r.link chain edge source target reversed label).edge = edge := by
  rw [Routing.link]
  cases labelGap? r.layering chain <;> rfl

@[simp] lemma reversed_link (r : Routing α) (chain : List Nat) (edge source target : Nat)
    (reversed : Bool) (label : Option (Size α)) :
    (r.link chain edge source target reversed label).reversed = reversed := by
  rw [Routing.link]
  cases labelGap? r.layering chain <;> rfl

/-- Edges are reversed only by arcs that are. -/
lemma reversed_of_mem_routes {routing : Routing α} {r : RoutedEdge α}
    (hr : r ∈ c.routes shapes [] routing) :
    r.reversed = false := by
  rw [routes, List.mem_append, List.mem_mapIdx, List.mem_map] at hr
  rcases hr with ⟨i, hi, rfl⟩ | ⟨e, -, rfl⟩
  · simp
  · rfl

/-- **Every part is laid out**, by ranks that every edge respects. -/
lemma layout_eq_ok (config : GraphConfig α) (sizes : Array (Size α)) (shapes : Array (EdgeShape α))
    (hs : s.WellFormed) (hc : c ∈ ofScope s) (named : Nat) :
    ∃ ranks : Array Nat,
      let ranking : Ranking :=
        ⟨(c.digraph shapes).backArcs, (c.digraph shapes).orient (c.digraph shapes).backArcs, ranks⟩
      let g := c.layering config sizes shapes named ranking
      let l := c.arrange config sizes shapes ranking g
      c.layout config sizes shapes named = .ok (l, named + (g.nodes.size - c.members.length)) ∧
      (∀ i < c.members.length, IsGreatest (ranking.oriented.pathLengths i) (l.rank i)) ∧
      List.Forall₂ (c.Drawn shapes l) (c.links ++ c.loops) l.edges := by
  set graph := c.digraph shapes with hgraph
  have hg : graph.WellFormed := wellFormed_digraph shapes hs hc
  obtain ⟨ranks, hok, hgreatest, hrespects⟩ :=
    Ranking.ofDigraph_eq_ok hg (loopless_digraph shapes hs hc)
  refine ⟨ranks, ?_⟩
  intro ranking g l
  refine ⟨?_, fun i hi => ?_, ?_⟩
  · rw [layout, hok]
    rfl
  · rw [rank_arrange _ _ hi]
    exact hgreatest i
  · have hrank : ∀ v ∈ c.members, l.rank (c.localIndex v) = ranks.getD (c.localIndex v) 0 :=
      fun v hv => rank_arrange _ _ (List.idxOf_lt_length_iff.mpr hv)
    refine forall₂_routes (by simp [g, ranking, length_chains, hgraph, arcs_digraph]) ?_ ?_
    · intro i e chain he
      obtain ⟨hmem, hne⟩ := mem_links.mp (List.mem_of_getElem? he)
      have harc : (graph.orient graph.backArcs).arcs[i]? =
          some (if i ∈ graph.backArcs then (c.arcOf shapes e).flip else c.arcOf shapes e) := by
        rw [Digraph.getElem?_orient, hgraph, arcs_digraph, List.getElem?_map, he]
        rfl
      have hspan := hrespects _ (List.mem_of_getElem? harc)
      have hsource := hrank _ (source_mem hs hc hmem)
      have htarget := hrank _ (target_mem hs hc hmem)
      refine ⟨edge_link .., fun _ hforward => ?_, fun _ hbackward => ?_, fun heq => absurd heq hne⟩
      · rw [reversed_link, List.contains_eq_mem, decide_eq_false_iff_not] at hforward
        rw [if_neg hforward] at hspan
        rw [hsource, htarget]
        exact hspan
      · rw [reversed_link, List.contains_eq_mem, decide_eq_true_eq] at hbackward
        rw [if_pos hbackward] at hspan
        rw [hsource, htarget]
        exact hspan
    · intro e he
      obtain ⟨-, heq⟩ := mem_loops.mp he
      exact ⟨rfl, fun hne => absurd heq hne, fun hne => absurd heq hne, fun _ => rfl⟩

/-- Every member of a part is placed. -/
lemma length_members (hs : s.WellFormed) (hc : c ∈ ofScope s) {named after : Nat}
    {l : ComponentLayout α} (h : c.layout config sizes shapes named = .ok (l, after)) :
    l.members.length = c.members.length := by
  obtain ⟨ranks, hok, -⟩ := layout_eq_ok config sizes shapes hs hc named
  obtain ⟨rfl, -⟩ := Prod.mk.inj (Except.ok.inj (h.symm.trans hok))
  exact length_members_arrange _ _

/-- Every edge of a part is drawn, once. -/
lemma map_edge_edges (hs : s.WellFormed) (hc : c ∈ ofScope s) {named after : Nat}
    {l : ComponentLayout α} (h : c.layout config sizes shapes named = .ok (l, after)) :
    (l.edges.map (·.edge)).Perm (c.edges.map (·.edge)) := by
  obtain ⟨ranks, hok, -, hdrawn⟩ := layout_eq_ok config sizes shapes hs hc named
  obtain ⟨rfl, -⟩ := Prod.mk.inj (Except.ok.inj (h.symm.trans hok))
  have hnumbers : ∀ {es : List ScopeEdge} {ws : List (RoutedEdge α)},
      List.Forall₂ (fun e w => w.edge = e.edge) es ws → ws.map (·.edge) = es.map (·.edge) := by
    intro es ws hforall
    induction hforall with
    | nil => rfl
    | cons hhead _ ih => rw [List.map_cons, List.map_cons, hhead, ih]
  rw [hnumbers (hdrawn.imp fun _ _ hdrawn => hdrawn.edge)]
  have hsplit := List.filter_append_perm (fun e : ScopeEdge => e.source != e.target) c.edges
  refine (List.Perm.of_eq ?_).trans (hsplit.map (·.edge))
  simp [links, loops, bne]

/-- **Ranks are the largest lengths of paths, and edges respect them.**  Every part of a scope is
laid out.  The rank of each member is the largest length of a path that ends there in the graph of
the part with its back arcs turned round.  Edges are drawn one by one: one that is not reversed
leads down at least as many ranks as it is long, one that is reversed leads up as many.  No edge of
a scope without cycles is reversed. -/
theorem ranks_are_longest_paths (config : GraphConfig α) (sizes : Array (Size α))
    (shapes : Array (EdgeShape α)) (hs : s.WellFormed) (hc : c ∈ ofScope s) (named : Nat) :
    ∃ (l : ComponentLayout α) (after : Nat), c.layout config sizes shapes named = .ok (l, after) ∧
      l.members.length = c.members.length ∧
      (∀ i < c.members.length,
        IsGreatest (((c.digraph shapes).orient (c.digraph shapes).backArcs).pathLengths i)
          (l.rank i)) ∧
      List.Forall₂ (c.Drawn shapes l) (c.links ++ c.loops) l.edges ∧
      (s.Acyclic → ∀ r ∈ l.edges, r.reversed = false) := by
  obtain ⟨ranks, hok, hgreatest, hdrawn⟩ := layout_eq_ok config sizes shapes hs hc named
  refine ⟨_, _, hok, length_members_arrange _ _, hgreatest, hdrawn, fun hacyclic => ?_⟩
  -- without cycles there are no back arcs at all
  have hnone : (c.digraph shapes).backArcs = [] :=
    Digraph.backArcs_eq_nil (wellFormed_digraph shapes hs hc)
      (acyclic_digraph shapes hs hc hacyclic)
  intro r hr
  rw [arrange, hnone] at hr
  exact reversed_of_mem_routes hr

/-- Three members in a row with a shortcut from the first to the last, and a loop at the last. -/
theorem ranks_of_shortcut :
    let s : Scope := ⟨none, [.node 0, .node 1, .node 2],
      [⟨0, 0, 1⟩, ⟨1, 1, 2⟩, ⟨2, 0, 2⟩, ⟨3, 2, 2⟩]⟩
    let c : Component := ⟨[0, 1, 2], s.edges⟩
    let shapes : Array (EdgeShape Rat) := #[⟨1, none⟩, ⟨2, none⟩, ⟨1, none⟩, ⟨1, none⟩]
    ∃ (l : ComponentLayout Rat) (after : Nat), c.layout .standard #[] shapes 0 = .ok (l, after) ∧
      IsGreatest (((c.digraph shapes).orient (c.digraph shapes).backArcs).pathLengths 2)
        (l.rank 2) ∧
      ∀ r ∈ l.edges, r.reversed = false := by
  intro s c shapes
  have hacyclic : s.Acyclic := by
    -- every edge between different members leads to a later one
    have hlt : ∀ v w, s.Leads v w → v < w := by
      rintro v w ⟨e, he, hne, rfl, rfl⟩
      revert hne
      revert e
      decide
    intro v hv
    have hless : ∀ w, Relation.TransGen s.Leads v w → v < w := by
      intro w hw
      induction hw with
      | single h => exact hlt _ _ h
      | tail _ h ih => exact ih.trans (hlt _ _ h)
    exact (hless v hv).ne rfl
  have hwell : s.WellFormed := by simp [Scope.WellFormed, s]
  have hpart : c ∈ ofScope s := by
    have hparts : ofScope s = [c] := by cbv
    simp [hparts]
  obtain ⟨l, after, hok, -, hgreatest, -, hforward⟩ :=
    ranks_are_longest_paths .standard #[] shapes hwell hpart 0
  exact ⟨l, after, hok, hgreatest 2 (by decide), hforward hacyclic⟩

end Layout

end Component

end Drafting.Graph
