import Mathlib
import Drafting.Proofs.Digraph.Search

/-!
Breaking the cycles of a graph.

The arcs that a depth-first search finds to lead back are turned round.  In the order in which the
search leaves vertices, the last one first, every arc then points forward.  None of them can be
spared: the target of each is connected with its source by arcs that are not turned round.

* `isTopological_finished`: the order of leaving is topological once the back arcs are turned round.
* `cycle_of_backArc`: a back arc that is not turned round closes a cycle.
* `backArcs_breaks_cycles_minimally`: both together.
* `topologicalOrder_eq_ok`: an acyclic graph has its order of leaving as a topological order.
-/

namespace Drafting.Graph.Digraph

open scoped List

variable {g : Digraph}

/-! ### The order of leaving -/

lemma nodup_finished (hg : g.WellFormed) : g.searchAll.finished.Nodup := by
  simpa [leaving] using (searching_searchAll hg).1.nodup

/-- A search from every vertex leaves every vertex. -/
lemma mem_finished (hg : g.WellFormed) {v : Nat} (hv : v < g.size) : v ∈ g.searchAll.finished :=
  (searching_searchAll hg).2 v hv

/-- After the search every arc has been followed. -/
lemma followed_searchAll (hg : g.WellFormed) {i : Nat} {a : Arc} (ha : g.arcs[i]? = some a) :
    Followed g g.searchAll [] i a := by
  refine ⟨ha, ?_, by simp [Pending]⟩
  simpa [leaving] using mem_finished hg (hg a (List.mem_of_getElem? ha)).1

/-- Once the back arcs are turned round, the order of leaving is topological. -/
lemma isTopological_finished (hg : g.WellFormed) (hl : g.Loopless) :
    (g.orient g.backArcs).IsTopological g.searchAll.finished := by
  refine ⟨nodup_finished hg, fun b hb => ?_⟩
  have hsearch := (searching_searchAll hg).1
  obtain ⟨i, a, ha, rfl⟩ := mem_arcs_orient.mp hb
  have hf := followed_searchAll hg ha
  by_cases hi : i ∈ g.backArcs
  · rw [if_pos hi]
    simpa [leaving, Arc.flip] using hsearch.backward i a hf hi
  · rw [if_neg hi]
    simpa [leaving] using hsearch.forward i a hf hi (hl a (List.mem_of_getElem? ha))

/-! ### Cycles that back arcs close -/

/-- The target of a back arc is connected with its source by arcs that do not lead back. -/
lemma exists_reach_of_mem_backArcs (hg : g.WellFormed) {i : Nat} (hi : i ∈ g.backArcs) :
    ∃ a, g.arcs[i]? = some a ∧
      Relation.ReflTransGen
        (fun v w => ∃ j b, g.arcs[j]? = some b ∧ j ∉ g.backArcs ∧ b.source = v ∧ b.target = w)
        a.target a.source := by
  obtain ⟨a, hf, -, hreach⟩ := (searching_searchAll hg).1.closes i hi
  refine ⟨a, hf.arc, Relation.ReflTransGen.mono ?_ _ _ hreach⟩
  rintro v w ⟨j, b, hb, hj, hs, ht⟩
  exact ⟨j, b, hb.arc, hj, hs, ht⟩

/-- If only back arcs are turned round and one of them is not, that one lies on a cycle. -/
lemma cycle_of_backArc (hg : g.WellFormed) {reversed : List Nat} (hsub : reversed ⊆ g.backArcs)
    {i : Nat} (hi : i ∈ g.backArcs) (hir : i ∉ reversed) :
    ∃ v, Relation.TransGen (g.orient reversed).Adj v v := by
  obtain ⟨a, ha, hreach⟩ := exists_reach_of_mem_backArcs hg hi
  have hkeep : ∀ j b, g.arcs[j]? = some b → j ∉ reversed →
      (g.orient reversed).Adj b.source b.target := by
    intro j b hb hj
    exact ⟨b, mem_arcs_orient.mpr ⟨j, b, hb, by rw [if_neg hj]⟩, rfl, rfl⟩
  have hback : Relation.ReflTransGen (g.orient reversed).Adj a.target a.source := by
    refine Relation.ReflTransGen.mono ?_ _ _ hreach
    rintro v w ⟨j, b, hb, hj, rfl, rfl⟩
    exact hkeep j b hb fun hjr => hj (hsub hjr)
  exact ⟨a.source, Relation.TransGen.head' (hkeep i a ha hir) hback⟩

/-- The graph with no arcs turned round is the graph itself. -/
lemma orient_nil (g : Digraph) : g.orient [] = g := by
  have harcs : (g.orient []).arcs = g.arcs := by
    refine List.ext_getElem? fun i => ?_
    rw [getElem?_orient]
    simp
  exact congrArg (Digraph.mk g.size) harcs

/-- No arc of an acyclic graph leads back. -/
lemma backArcs_eq_nil (hg : g.WellFormed) (ha : g.Acyclic) : g.backArcs = [] := by
  refine List.eq_nil_iff_forall_not_mem.mpr fun i hi => ?_
  obtain ⟨v, hv⟩ := cycle_of_backArc hg (List.nil_subset _) hi (by simp)
  rw [orient_nil] at hv
  exact ha v hv

/-- **Cycle breaking is sound and minimal**: turning all back arcs round leaves no cycle, turning
only some of them round leaves one, and a graph without cycles has no back arcs. -/
theorem backArcs_breaks_cycles_minimally (g : Digraph) (hg : g.WellFormed) (hl : g.Loopless) :
    (g.orient g.backArcs).Acyclic ∧
      (∀ reversed : List Nat, reversed ⊆ g.backArcs → ¬ g.backArcs ⊆ reversed →
        ∃ v, Relation.TransGen (g.orient reversed).Adj v v) ∧
      (g.Acyclic → g.backArcs = []) := by
  refine ⟨(isTopological_finished hg hl).acyclic, fun reversed hsub hproper => ?_,
    backArcs_eq_nil hg⟩
  obtain ⟨i, hi, hir⟩ : ∃ i, i ∈ g.backArcs ∧ i ∉ reversed := by
    simpa [List.subset_def] using hproper
  exact cycle_of_backArc hg hsub hi hir

/-- Two cycles through a common arc, one of them closed by two parallel arcs: both of these are
turned round, and turning only the first one round leaves a cycle. -/
theorem backArcs_breaks_parallel_cycles :
    let g : Digraph := ⟨3, [⟨0, 1, 1⟩, ⟨1, 2, 0⟩, ⟨2, 0, 1⟩, ⟨2, 0, 3⟩, ⟨1, 0, 2⟩]⟩
    g.backArcs = [4, 3, 2] ∧ (g.orient g.backArcs).Acyclic ∧
      ∃ v, Relation.TransGen (g.orient [4, 2]).Adj v v := by
  intro g
  have hback : g.backArcs = [4, 3, 2] := by cbv
  obtain ⟨hacyclic, hminimal, -⟩ :=
    backArcs_breaks_cycles_minimally g (by simp [WellFormed, g]) (by simp [Loopless, g])
  exact ⟨hback, hacyclic, hminimal [4, 2] (by simp [hback]) (by simp [hback])⟩

/-! ### Topological orders of acyclic graphs -/

/-- An acyclic graph has its order of leaving as a topological order. -/
lemma topologicalOrder_eq_ok (hg : g.WellFormed) (hl : g.Loopless) (ha : g.Acyclic) :
    g.topologicalOrder = .ok g.searchAll.finished ∧ g.IsTopological g.searchAll.finished := by
  have hback : g.searchAll.back = [] := backArcs_eq_nil hg ha
  have hloop : (g.arcs.find? fun a => a.source == a.target) = none := by
    rw [List.find?_eq_none]
    intro a hmem
    simpa using hl a hmem
  refine ⟨by simp only [topologicalOrder, hloop, hback], ?_⟩
  have htopological := isTopological_finished hg hl
  rwa [backArcs_eq_nil hg ha, orient_nil] at htopological

end Drafting.Graph.Digraph
