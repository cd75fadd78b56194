import Mathlib
import Drafting.Graph.Digraph

/-!
Paths, cycles and orders of a directed multigraph.

* `Digraph.Adj`, `Digraph.Acyclic`: one vertex leads to another by an arc, and no vertex leads back
  to itself.
* `Digraph.PathTo`: the arcs of a path that ends at a vertex; `PathTo.pathLength_le` says that no
  path of an acyclic graph is longer than all arcs together.
* `Digraph.IsTopological`: a list in which every arc points forward; `IsTopological.acyclic` says
  that a graph with such a list has no cycle.
* `Digraph.mem_outgoing`, `Digraph.getElem?_orient`: the arcs that leave a vertex and the arcs of a
  reoriented graph, by their numbers.
-/

namespace Drafting.Graph.Digraph

open scoped List

/-! ### Well-formed graphs -/

/-- Every arc runs between vertices of the graph. -/
def WellFormed (g : Digraph) : Prop := ∀ a ∈ g.arcs, a.source < g.size ∧ a.target < g.size

/-- No arc returns to the vertex it leaves. -/
def Loopless (g : Digraph) : Prop := ∀ a ∈ g.arcs, a.source ≠ a.target

/-! ### Cycles -/

/-- An arc leads from one vertex to another. -/
def Adj (g : Digraph) (v w : Nat) : Prop := ∃ a ∈ g.arcs, a.source = v ∧ a.target = w

/-- No vertex leads back to itself. -/
def Acyclic (g : Digraph) : Prop := ∀ v, ¬ Relation.TransGen g.Adj v v

/-- The arcs of a path that ends at a vertex, the last arc first. -/
inductive PathTo (g : Digraph) : Nat → List Arc → Prop
  /-- The path without arcs. -/
  | nil (v : Nat) : PathTo g v []
  /-- A path followed by an arc that leaves its end. -/
  | cons {a : Arc} {p : List Arc} (mem : a ∈ g.arcs) (rest : PathTo g a.source p) :
      PathTo g a.target (a :: p)

/-- The length of a path is the sum of the lengths of its arcs. -/
def pathLength (p : List Arc) : Nat := (p.map Arc.length).sum

@[simp] lemma pathLength_nil : pathLength [] = 0 := rfl

@[simp] lemma pathLength_cons (a : Arc) (p : List Arc) :
    pathLength (a :: p) = a.length + pathLength p := by
  simp [pathLength]

namespace PathTo

variable {g : Digraph} {v : Nat} {p : List Arc}

lemma subset (hp : g.PathTo v p) : p ⊆ g.arcs := by
  induction hp with
  | nil v => exact List.nil_subset _
  | cons ha _ ih => exact List.cons_subset.mpr ⟨ha, ih⟩

/-- Every arc of a path leads to its end. -/
lemma reflTransGen_of_mem (hp : g.PathTo v p) {a : Arc} (ha : a ∈ p) :
    Relation.ReflTransGen g.Adj a.target v := by
  induction hp with
  | nil v => simp at ha
  | @cons b p hb _ ih =>
      rcases List.mem_cons.mp ha with rfl | ha
      · exact .refl
      · exact (ih ha).tail ⟨b, hb, rfl, rfl⟩

/-- No path of an acyclic graph uses an arc twice. -/
lemma nodup (hacyclic : g.Acyclic) (hp : g.PathTo v p) : p.Nodup := by
  induction hp with
  | nil v => exact List.nodup_nil
  | @cons a p ha hrest ih =>
      refine List.nodup_cons.mpr ⟨fun hmem => ?_, ih⟩
      exact hacyclic a.source (.head' ⟨a, ha, rfl, rfl⟩ (hrest.reflTransGen_of_mem hmem))

/-- No path of an acyclic graph is longer than all arcs together. -/
lemma pathLength_le (hacyclic : g.Acyclic) (hp : g.PathTo v p) :
    pathLength p ≤ (g.arcs.map Arc.length).sum := by
  obtain ⟨q, hperm, hsub⟩ := (hp.nodup hacyclic).subperm hp.subset
  calc pathLength p = (q.map Arc.length).sum := ((hperm.map Arc.length).sum_eq).symm
    _ ≤ (g.arcs.map Arc.length).sum := (hsub.map Arc.length).sum_le_sum fun _ _ => Nat.zero_le _

end PathTo

/-! ### Orders -/

/-- A list without repetition in which every arc points forward. -/
structure IsTopological (g : Digraph) (order : List Nat) : Prop where
  nodup : order.Nodup
  forward : ∀ a ∈ g.arcs, [a.source, a.target] <+ order

/-- Two entries of a list without repetition stand in one order only. -/
lemma not_sublist_swap {order : List Nat} (hn : order.Nodup) {v w : Nat}
    (h : [v, w] <+ order) : ¬ [w, v] <+ order := by
  induction order with
  | nil => simp at h
  | cons x rest ih =>
      obtain ⟨hx, hrest⟩ := List.nodup_cons.mp hn
      intro h'
      rcases List.sublist_cons_iff.mp h with h | ⟨r, hr, hr'⟩
      · rcases List.sublist_cons_iff.mp h' with h' | ⟨s, hs, hs'⟩
        · exact ih hrest h h'
        · rw [List.cons.injEq] at hs
          exact hx (hs.1 ▸ h.subset (by simp))
      · rw [List.cons.injEq] at hr
        rcases List.sublist_cons_iff.mp h' with h' | ⟨s, hs, hs'⟩
        · exact hx (hr.1 ▸ h'.subset (by simp))
        · rw [List.cons.injEq] at hs
          have hwx : w ∈ rest := hr'.subset (by simp [← hr.2])
          exact hx (hs.1 ▸ hwx)

/-- The order of entries in a list without repetition is transitive. -/
lemma sublist_trans_pair {order : List Nat} (hn : order.Nodup) {u v w : Nat}
    (h : [u, v] <+ order) (h' : [v, w] <+ order) : [u, w] <+ order := by
  induction order with
  | nil => simp at h
  | cons x rest ih =>
      obtain ⟨hx, hrest⟩ := List.nodup_cons.mp hn
      rcases List.sublist_cons_iff.mp h' with h' | ⟨s, hs, hs'⟩
      · rcases List.sublist_cons_iff.mp h with h | ⟨r, hr, hr'⟩
        · exact (ih hrest h h').cons x
        · rw [List.cons.injEq] at hr
          rw [hr.1]
          exact (List.singleton_sublist.mpr (h'.subset (by simp))).cons_cons x
      · -- the second pair starts at the head, so nothing can stand before it
        rw [List.cons.injEq] at hs
        rcases List.sublist_cons_iff.mp h with h | ⟨r, hr, hr'⟩
        · exact absurd (hs.1 ▸ h.subset (by simp)) hx
        · rw [List.cons.injEq] at hr
          have hv : v ∈ rest := hr'.subset (by simp [← hr.2])
          exact absurd (hs.1 ▸ hv) hx

/-- Reachable vertices stand later in a topological order. -/
lemma IsTopological.sublist_of_transGen {g : Digraph} {order : List Nat} (h : g.IsTopological order)
    {v w : Nat} (hvw : Relation.TransGen g.Adj v w) : [v, w] <+ order := by
  induction hvw with
  | single hab =>
      obtain ⟨a, ha, rfl, rfl⟩ := hab
      exact h.forward a ha
  | tail _ hab ih =>
      obtain ⟨a, ha, rfl, rfl⟩ := hab
      exact sublist_trans_pair h.nodup ih (h.forward a ha)

/-- A graph with a topological order has no cycle. -/
lemma IsTopological.acyclic {g : Digraph} {order : List Nat} (h : g.IsTopological order) :
    g.Acyclic := by
  intro v hv
  have hvv := h.sublist_of_transGen hv
  exact not_sublist_swap h.nodup hvv hvv

/-! ### Arcs by number -/

lemma mem_outgoingFrom {index v i w : Nat} {arcs : List Arc} :
    (i, w) ∈ outgoingFrom index v arcs ↔
      ∃ j a, i = index + j ∧ arcs[j]? = some a ∧ a.source = v ∧ a.target = w := by
  induction arcs generalizing index with
  | nil => simp [outgoingFrom]
  | cons b rest ih =>
      have hsplit : (∃ j a, i = index + j ∧ (b :: rest)[j]? = some a ∧ a.source = v ∧
          a.target = w) ↔
          (i = index ∧ b.source = v ∧ b.target = w) ∨
            ∃ j a, i = index + 1 + j ∧ rest[j]? = some a ∧ a.source = v ∧ a.target = w := by
        constructor
        · rintro ⟨j, a, rfl, hj, rfl, rfl⟩
          cases j with
          | zero =>
              obtain rfl : b = a := by simpa using hj
              exact Or.inl ⟨rfl, rfl, rfl⟩
          | succ j => exact Or.inr ⟨j, a, by omega, by simpa using hj, rfl, rfl⟩
        · rintro (⟨rfl, rfl, rfl⟩ | ⟨j, a, rfl, hj, rfl, rfl⟩)
          · exact ⟨0, b, rfl, rfl, rfl, rfl⟩
          · exact ⟨j + 1, a, by omega, by simpa using hj, rfl, rfl⟩
      rw [hsplit, outgoingFrom]
      by_cases hb : b.source = v
      · rw [if_pos hb, List.mem_cons, ih, Prod.mk.injEq]
        constructor
        · rintro (⟨rfl, rfl⟩ | h)
          · exact Or.inl ⟨rfl, hb, rfl⟩
          · exact Or.inr h
        · rintro (⟨rfl, -, rfl⟩ | h)
          · exact Or.inl ⟨rfl, rfl⟩
          · exact Or.inr h
      · rw [if_neg hb, ih]
        constructor
        · exact Or.inr
        · rintro (⟨-, hv, -⟩ | h)
          · exact absurd hv hb
          · exact h

/-- The arcs that leave a vertex are those with their source there. -/
lemma mem_outgoing {g : Digraph} {v i w : Nat} :
    (i, w) ∈ g.outgoing v ↔ ∃ a, g.arcs[i]? = some a ∧ a.source = v ∧ a.target = w := by
  rw [outgoing, mem_outgoingFrom]
  constructor
  · rintro ⟨j, a, rfl, hj, hs, ht⟩
    exact ⟨a, by simpa using hj, hs, ht⟩
  · rintro ⟨a, hj, hs, ht⟩
    exact ⟨i, a, by omega, hj, hs, ht⟩

lemma nodup_outgoingFrom (index v : Nat) (arcs : List Arc) :
    ((outgoingFrom index v arcs).map Prod.fst).Nodup := by
  induction arcs generalizing index with
  | nil => simp [outgoingFrom]
  | cons b rest ih =>
      rw [outgoingFrom]
      split
      · rw [List.map_cons, List.nodup_cons]
        refine ⟨fun h => ?_, ih (index + 1)⟩
        obtain ⟨⟨i, w⟩, hmem, hi⟩ := List.mem_map.mp h
        obtain ⟨j, a, hij, -⟩ := mem_outgoingFrom.mp hmem
        simp only at hi
        omega
      · exact ih (index + 1)

/-- No arc leaves a vertex twice. -/
lemma nodup_outgoing (g : Digraph) (v : Nat) : ((g.outgoing v).map Prod.fst).Nodup :=
  nodup_outgoingFrom 0 v g.arcs

lemma getElem?_orientFrom (reversed : List Nat) (index : Nat) (arcs : List Arc) (i : Nat) :
    (orientFrom reversed index arcs)[i]? =
      arcs[i]?.map fun a => if index + i ∈ reversed then a.flip else a := by
  induction arcs generalizing index i with
  | nil => simp [orientFrom]
  | cons b rest ih =>
      cases i with
      | zero => simp [orientFrom]
      | succ i =>
          rw [orientFrom, List.getElem?_cons_succ, List.getElem?_cons_succ, ih,
            show index + 1 + i = index + (i + 1) from by omega]

/-- The arcs of a reoriented graph have the same numbers; those of the set are turned round. -/
lemma getElem?_orient (g : Digraph) (reversed : List Nat) (i : Nat) :
    (g.orient reversed).arcs[i]? = g.arcs[i]?.map fun a => if i ∈ reversed then a.flip else a := by
  rw [orient, getElem?_orientFrom, Nat.zero_add]

lemma length_orientFrom (reversed : List Nat) (index : Nat) (arcs : List Arc) :
    (orientFrom reversed index arcs).length = arcs.length := by
  induction arcs generalizing index with
  | nil => rfl
  | cons a arcs ih => rw [orientFrom, List.length_cons, ih, List.length_cons]

@[simp] lemma length_arcs_orient (g : Digraph) (reversed : List Nat) :
    (g.orient reversed).arcs.length = g.arcs.length :=
  length_orientFrom reversed 0 g.arcs

@[simp] lemma size_orient (g : Digraph) (reversed : List Nat) :
    (g.orient reversed).size = g.size := rfl

/-- An arc of a reoriented graph is an arc of the graph, turned round if its number is in the
set. -/
lemma mem_arcs_orient {g : Digraph} {reversed : List Nat} {b : Arc} :
    b ∈ (g.orient reversed).arcs ↔
      ∃ i a, g.arcs[i]? = some a ∧ b = if i ∈ reversed then a.flip else a := by
  rw [List.mem_iff_getElem?]
  constructor
  · rintro ⟨i, hi⟩
    rw [getElem?_orient, Option.map_eq_some_iff] at hi
    obtain ⟨a, ha, rfl⟩ := hi
    exact ⟨i, a, ha, rfl⟩
  · rintro ⟨i, a, ha, rfl⟩
    exact ⟨i, by rw [getElem?_orient, ha]; rfl⟩

/-- Turning arcs round keeps a graph well formed. -/
lemma WellFormed.orient {g : Digraph} (h : g.WellFormed) (reversed : List Nat) :
    (g.orient reversed).WellFormed := by
  intro b hb
  obtain ⟨i, a, ha, rfl⟩ := mem_arcs_orient.mp hb
  have hends := h a (List.mem_of_getElem? ha)
  split
  · exact ⟨hends.2, hends.1⟩
  · exact hends

/-- Turning arcs round makes no loops. -/
lemma Loopless.orient {g : Digraph} (h : g.Loopless) (reversed : List Nat) :
    (g.orient reversed).Loopless := by
  intro b hb
  obtain ⟨i, a, ha, rfl⟩ := mem_arcs_orient.mp hb
  have hne := h a (List.mem_of_getElem? ha)
  split
  · exact hne.symm
  · exact hne

end Drafting.Graph.Digraph
