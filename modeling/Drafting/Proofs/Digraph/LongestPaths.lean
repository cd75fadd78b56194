import Mathlib
import Drafting.Graph.Ranking
import Drafting.Proofs.Arrays
import Drafting.Proofs.Digraph.CycleBreaking

/-!
Longest paths.

The vertices are taken in a topological order, and each raises the ends of the arcs that leave it.
Arcs into a vertex come from vertices before it, so its rank is final when its turn comes.

* `Relaxed`: what holds after some of the vertices have had their turn: every rank is the length of
  a path, and arcs that leave one of these vertices span at least their length.
* `Relaxed.relaxVertex`: the turn of one vertex keeps it.
* `isGreatest_longestPaths`: the ranks are the largest lengths of paths, whatever the topological
  order.
* `Ranking.ofDigraph_eq_ok`: a graph without loops is always ranked.
-/

namespace Drafting.Graph.Digraph

open scoped List

variable {g : Digraph}

/-! ### The turn of one vertex -/

/-- Raises the ends of some arcs that leave a vertex of a given rank. -/
def raise (v own : Nat) (ranks : Array Nat) (a : Arc) : Array Nat :=
  if a.source = v then ranks.modify a.target (max · (own + a.length)) else ranks

lemma relaxVertex_eq_foldl_raise (arcs : List Arc) (ranks : Array Nat) (v : Nat) :
    relaxVertex arcs ranks v = arcs.foldl (raise v (ranks.getD v 0)) ranks := rfl

@[simp] lemma size_raise (v own : Nat) (ranks : Array Nat) (a : Arc) :
    (raise v own ranks a).size = ranks.size := by
  rw [raise]
  split <;> simp

@[simp] lemma size_foldl_raise (v own : Nat) (arcs : List Arc) (ranks : Array Nat) :
    (arcs.foldl (raise v own) ranks).size = ranks.size := by
  induction arcs generalizing ranks with
  | nil => rfl
  | cons a arcs ih => rw [List.foldl_cons, ih, size_raise]

/-- Raising never lowers a rank. -/
lemma getD_le_raise (v own : Nat) (ranks : Array Nat) (a : Arc) (w : Nat) :
    ranks.getD w 0 ≤ (raise v own ranks a).getD w 0 := by
  rw [raise]
  split
  · rw [getD_modify]
    split
    · exact le_max_left _ _
    · exact le_rfl
  · exact le_rfl

lemma getD_le_foldl_raise (v own : Nat) (arcs : List Arc) (ranks : Array Nat) (w : Nat) :
    ranks.getD w 0 ≤ (arcs.foldl (raise v own) ranks).getD w 0 := by
  induction arcs generalizing ranks with
  | nil => exact le_rfl
  | cons a arcs ih => exact (getD_le_raise v own ranks a w).trans (ih _)

/-- The ends of the arcs are at least as high as the arcs demand. -/
lemma le_foldl_raise {v own : Nat} {arcs : List Arc} {ranks : Array Nat} {a : Arc} (ha : a ∈ arcs)
    (hs : a.source = v) (ht : a.target < ranks.size) :
    own + a.length ≤ (arcs.foldl (raise v own) ranks).getD a.target 0 := by
  induction arcs generalizing ranks with
  | nil => simp at ha
  | cons b arcs ih =>
      rcases List.mem_cons.mp ha with rfl | ha
      · refine le_trans ?_ (getD_le_foldl_raise v own arcs _ a.target)
        rw [raise, if_pos hs, getD_modify, if_pos ⟨rfl, ht⟩]
        exact le_max_right _ _
      · exact ih ha (by simpa using ht)

/-- A rank that has changed is what one of the arcs demands. -/
lemma foldl_raise_cases (v own : Nat) (arcs : List Arc) (ranks : Array Nat) (w : Nat) :
    (arcs.foldl (raise v own) ranks).getD w 0 = ranks.getD w 0 ∨
      ∃ a ∈ arcs, a.source = v ∧ a.target = w ∧
      (arcs.foldl (raise v own) ranks).getD w 0 = own + a.length := by
  induction arcs generalizing ranks with
  | nil => exact Or.inl rfl
  | cons b arcs ih =>
      rw [List.foldl_cons]
      rcases ih (raise v own ranks b) with heq | ⟨a, ha, hs, ht, heq⟩
      · rw [heq, raise]
        split
        next hs =>
          rw [getD_modify]
          split
          next hw =>
            rcases max_choice (ranks.getD w 0) (own + b.length) with hmax | hmax
            · exact Or.inl hmax
            · exact Or.inr ⟨b, by simp, hs, hw.1, hmax⟩
          next => exact Or.inl rfl
        next => exact Or.inl rfl
      · exact Or.inr ⟨a, by simp [ha], hs, ht, heq⟩

/-! ### Turns in a topological order -/

/-- What holds after some vertices have had their turn. -/
structure Relaxed (g : Digraph) (done : List Nat) (ranks : Array Nat) : Prop where
  size : ranks.size = g.size
  attained : ∀ v, ∃ p, g.PathTo v p ∧ pathLength p = ranks.getD v 0
  respects : ∀ a ∈ g.arcs, a.source ∈ done →
    ranks.getD a.source 0 + a.length ≤ ranks.getD a.target 0

/-- The turn of the next vertex of a topological order. -/
lemma Relaxed.relaxVertex (hg : g.WellFormed) {done rest : List Nat} {v : Nat}
    (ho : g.IsTopological (done ++ v :: rest)) {ranks : Array Nat} (h : Relaxed g done ranks) :
    Relaxed g (done ++ [v]) (relaxVertex g.arcs ranks v) := by
  rw [relaxVertex_eq_foldl_raise]
  -- no arc leads from the vertex to one that has had its turn, so the ranks of these are final
  have hfinal : ∀ u ∈ done ++ [v],
      (g.arcs.foldl (raise v (ranks.getD v 0)) ranks).getD u 0 = ranks.getD u 0 := by
    intro u hu
    rcases foldl_raise_cases v (ranks.getD v 0) g.arcs ranks u with heq | ⟨a, ha, rfl, rfl, -⟩
    · exact heq
    · exfalso
      have hforward := ho.forward a ha
      refine not_sublist_swap ho.nodup hforward ?_
      rcases List.mem_append.mp hu with hu | hu
      · have hdone : [a.target] <+ done := by simpa using hu
        exact hdone.append (by simp : [a.source] <+ a.source :: rest)
      · obtain hloop := List.mem_singleton.mp hu
        rw [hloop] at hforward ⊢
        exact hforward
  refine ⟨by rw [size_foldl_raise, h.size], fun w => ?_, fun a ha hsource => ?_⟩
  · rcases foldl_raise_cases v (ranks.getD v 0) g.arcs ranks w with heq | ⟨a, ha, rfl, rfl, heq⟩
    · rw [heq]
      exact h.attained w
    · obtain ⟨p, hp, hlength⟩ := h.attained a.source
      refine ⟨a :: p, PathTo.cons ha hp, ?_⟩
      rw [pathLength_cons, hlength, heq]
      omega
  · rw [hfinal a.source hsource]
    rcases List.mem_append.mp hsource with hdone | hv
    · exact (h.respects a ha hdone).trans (getD_le_foldl_raise _ _ _ _ _)
    · rw [List.mem_singleton] at hv
      rw [hv]
      exact le_foldl_raise ha hv (h.size ▸ (hg a ha).2)

/-- The turns of all remaining vertices. -/
lemma Relaxed.foldl_relaxVertex (hg : g.WellFormed) {done rest : List Nat}
    (ho : g.IsTopological (done ++ rest)) {ranks : Array Nat} (h : Relaxed g done ranks) :
    Relaxed g (done ++ rest) (rest.foldl (Digraph.relaxVertex g.arcs) ranks) := by
  induction rest generalizing done ranks with
  | nil => simpa using h
  | cons v rest ih =>
      have hstep := h.relaxVertex hg ho
      rw [List.foldl_cons, show done ++ v :: rest = (done ++ [v]) ++ rest from by simp]
      exact ih (by simpa using ho) hstep

/-- What holds of the ranks in the end. -/
lemma relaxed_longestPaths (hg : g.WellFormed) {order : List Nat} (ho : g.IsTopological order) :
    Relaxed g order (g.longestPaths order) := by
  have hinitial : Relaxed g [] (Array.replicate g.size 0) := by
    refine ⟨by simp, fun v => ⟨[], PathTo.nil v, ?_⟩, by simp⟩
    rw [pathLength_nil, Array.getD_eq_getD_getElem?, Array.getElem?_replicate]
    split <;> rfl
  exact hinitial.foldl_relaxVertex hg (by simpa using ho)

/-! ### Ranks are longest paths -/

/-- Ranks along which every arc spans at least its length bound the lengths of paths. -/
lemma pathLength_le_of_respects {rank : Nat → Nat}
    (h : ∀ a ∈ g.arcs, rank a.source + a.length ≤ rank a.target) {v : Nat} {p : List Arc}
    (hp : g.PathTo v p) :
    pathLength p ≤ rank v := by
  induction hp with
  | nil v => simp
  | @cons a p ha _ ih =>
      have hspan := h a ha
      rw [pathLength_cons]
      omega

/-- The lengths of the paths that end at a vertex. -/
def pathLengths (g : Digraph) (v : Nat) : Set Nat := {n | ∃ p, g.PathTo v p ∧ pathLength p = n}

/-- Every arc of a graph starts in a topological order that lists all vertices, so no path is longer
than the ranks allow. -/
lemma respects_longestPaths (hg : g.WellFormed) {order : List Nat} (ho : g.IsTopological order)
    {a : Arc} (ha : a ∈ g.arcs) :
    (g.longestPaths order).getD a.source 0 + a.length ≤ (g.longestPaths order).getD a.target 0 :=
  (relaxed_longestPaths hg ho).respects a ha ((ho.forward a ha).subset (by simp))

/-- The ranks are the largest lengths of paths. -/
lemma isGreatest_longestPaths (hg : g.WellFormed) {order : List Nat} (ho : g.IsTopological order)
    (v : Nat) :
    IsGreatest (g.pathLengths v) ((g.longestPaths order).getD v 0) := by
  refine ⟨(relaxed_longestPaths hg ho).attained v, ?_⟩
  rintro n ⟨p, hp, rfl⟩
  exact @pathLength_le_of_respects g (fun w => (g.longestPaths order).getD w 0)
    (fun a ha => respects_longestPaths hg ho ha) v p hp

/-- An arc that spans too few ranks is not found when there is none. -/
lemma firstShort_eq_none {ranks : Array Nat} {arcs : List Arc}
    (h : ∀ a ∈ arcs, ranks.getD a.source 0 + a.length ≤ ranks.getD a.target 0) (index : Nat) :
    firstShort ranks index arcs = none := by
  induction arcs generalizing index with
  | nil => rfl
  | cons a arcs ih =>
      have hspan := h a (by simp)
      rw [firstShort, if_neg (by omega)]
      exact ih (fun b hb => h b (by simp [hb])) (index + 1)

end Drafting.Graph.Digraph

namespace Drafting.Graph.Ranking

open Drafting.Graph.Digraph

variable {α : Type}

/-- **A graph without loops is always ranked**: its back arcs are turned round, and then each rank
is the largest length of a path that ends there, so that every arc spans at least its length. -/
theorem ofDigraph_eq_ok {g : Digraph} (hg : g.WellFormed) (hl : g.Loopless) :
    ∃ ranks : Array Nat, (ofDigraph g : Except (Inconsistency α) Ranking) =
        .ok ⟨g.backArcs, g.orient g.backArcs, ranks⟩ ∧
      (∀ v, IsGreatest ((g.orient g.backArcs).pathLengths v) (ranks.getD v 0)) ∧
      ∀ a ∈ (g.orient g.backArcs).arcs, ranks.getD a.source 0 + a.length ≤
        ranks.getD a.target 0 := by
  set oriented := g.orient g.backArcs with horiented
  have hgo : oriented.WellFormed := hg.orient _
  have hlo : oriented.Loopless := hl.orient _
  have hacyclic : oriented.Acyclic := (isTopological_finished hg hl).acyclic
  obtain ⟨horder, htopological⟩ := topologicalOrder_eq_ok hgo hlo hacyclic
  have hrespects : ∀ a ∈ oriented.arcs,
      (oriented.longestPaths oriented.searchAll.finished).getD a.source 0 + a.length ≤
        (oriented.longestPaths oriented.searchAll.finished).getD a.target 0 :=
    fun a ha => respects_longestPaths hgo htopological ha
  refine ⟨oriented.longestPaths oriented.searchAll.finished, ?_,
    isGreatest_longestPaths hgo htopological, hrespects⟩
  have hranks : (ranksOf oriented : Except (Inconsistency α) (Array Nat)) =
      .ok (oriented.longestPaths oriented.searchAll.finished) := by
    rw [ranksOf, horder]
  have hcheck : (check oriented (oriented.longestPaths oriented.searchAll.finished) :
      Except (Inconsistency α) Unit) = .ok () := by
    rw [check, firstShort_eq_none hrespects]
  rw [ofDigraph, ← horiented, hranks]
  simp only [bind, Except.bind, hcheck]

end Drafting.Graph.Ranking
