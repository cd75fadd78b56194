import Mathlib
import Drafting.Proofs.Binary.Single
import Drafting.Proofs.Declared
import Drafting.Proofs.Diagnostics
import Drafting.Proofs.Graph.Cycles
import Drafting.Proofs.Graph.Outcome

/-!
What is reported of a graph.

* `Model.NestsIn`, `Model.encard_cycles`: the clusters that clusters name, and the cycles among
  them.
* `Model.Reports`: each fault is reported once, and nothing else is.
* `Model.WellFormed`, `Model.Reports.eq_nil_iff`: nothing is reported exactly of a
  graph that is well formed.
* `Diagram.graph_faults_are_reported`: so it is in a drawing.
-/

namespace Drafting.Graph

open Relation
open Diagnostic (subjects)

variable {α : Type}

/-! ### Faults and reports -/

/-- A size with a side that is negative or not an ordinary number. -/
def IsFaulty [Scalar α] (size : Size α) : Prop :=
  (size.width < 0 ∨ Scalar.isFinite size.width = false) ∨
    size.height < 0 ∨ Scalar.isFinite size.height = false

instance instDecidableIsFaulty [Scalar α] (size : Size α) : Decidable (IsFaulty size) := by
  unfold IsFaulty; infer_instance

namespace Model

/-- The first declaration of a cluster names another one as the cluster around it. -/
def NestsIn (m : Model α) (id parent : Ident) : Prop :=
  ∃ c ∈ m.distinctClusters, c.id = id ∧ c.parent = some parent

/-- Each fault of a graph is reported once, and nothing else is. -/
structure Reports [Scalar α] (m : Model α) (ds : List (Diagnostic α)) : Prop where
  /-- Declarations of a node or a cluster that is declared already. -/
  duplicates : subjects .duplicateId ds =
    (Declared.repeated (m.nodes.map (·.id)) ++ Declared.repeated (m.clusters.map (·.id))).map some
  /-- Clusters and nodes in a cluster that is not declared. -/
  parents : subjects .clusterNotFound ds =
    ((m.distinctClusters.filterMap (·.parent) ++ m.distinctNodes.filterMap (·.parent)).filter
      (· ∉ m.clusters.map (·.id))).map some
  /-- Ends of edges that are not declared. -/
  ends : subjects .nodeNotFound ds =
    ((m.edges.flatMap fun e => [e.source, e.target]).filter (· ∉ m.nodes.map (·.id))).map some
  /-- Cycles of clusters that lie in each other. -/
  cycles : (subjects .clusterCycle ds).length = {z | IsCycle m.NestsIn z}.encard
  /-- Sizes that cannot be used. -/
  sizes : subjects .invalidSize ds =
    (m.distinctNodes.filter fun n => n.size.any fun size => IsFaulty size).map (some ·.id)
  /-- Faults of other diagrams. -/
  others : ∀ kind ∈ [.participantNotFound, .activationUnderflow, .unclosedActivation,
    .unbalancedBlock, .invalidLifetime], subjects kind ds = []

/-- A graph without faults. -/
structure WellFormed [Scalar α] (m : Model α) : Prop where
  /-- Nodes have different names. -/
  nodeNames : (m.nodes.map (·.id)).Nodup
  /-- Clusters have different names. -/
  clusterNames : (m.clusters.map (·.id)).Nodup
  /-- Nodes lie in clusters. -/
  nodeParents : ∀ n ∈ m.nodes, ∀ parent ∈ n.parent, parent ∈ m.clusters.map (·.id)
  /-- Clusters lie in clusters. -/
  clusterParents : ∀ c ∈ m.clusters, ∀ parent ∈ c.parent, parent ∈ m.clusters.map (·.id)
  /-- No cluster lies in itself. -/
  acyclic : ∀ id, ¬ TransGen m.NestsIn id id
  /-- Edges connect nodes. -/
  ends : ∀ e ∈ m.edges, e.source ∈ m.nodes.map (·.id) ∧ e.target ∈ m.nodes.map (·.id)
  /-- Sizes can be used. -/
  sizes : ∀ n ∈ m.nodes, ∀ size ∈ n.size, ¬ IsFaulty size

/-! ### Clusters that name each other -/

lemma nodup_distinctClusters (m : Model α) : (m.distinctClusters.map (·.id)).Nodup :=
  Declared.nodup_firsts _ _

lemma rightUnique_nestsIn (m : Model α) : Relator.RightUnique m.NestsIn := by
  rintro a b b' ⟨c, hc, rfl, hb⟩ ⟨c', hc', hid, hb'⟩
  obtain rfl : c' = c := List.inj_on_of_nodup_map m.nodup_distinctClusters hc' hc hid
  exact Option.some.inj (hb.symm.trans hb')

/-- The name of a cluster by its number. -/
def clusterName (m : Model α) (i : Nat) : Ident := (m.distinctClusters[i]?.map (·.id)).getD ""

lemma clusterIndex?_clusterName {m : Model α} {i : Nat} (h : i < m.distinctClusters.length) :
    m.clusterIndex? (m.clusterName i) = some i := by
  rw [clusterName, List.getElem?_eq_getElem h]
  exact Declared.indexOf?_getElem m.nodup_distinctClusters h

lemma clusterName_of_clusterIndex? {m : Model α} {id : Ident} {i : Nat}
    (h : m.clusterIndex? id = some i) : i < m.distinctClusters.length ∧ m.clusterName i = id := by
  rw [clusterIndex?, Declared.indexOf?, List.findIdx?_eq_some_iff_getElem] at h
  obtain ⟨hi, hid, _⟩ := h
  refine ⟨hi, ?_⟩
  rw [clusterName, List.getElem?_eq_getElem hi]
  exact beq_iff_eq.mp hid

lemma liesIn_declaredParents {m : Model α} {i j : Nat} :
    Clusters.LiesIn m.declaredParents i j ↔
      ∃ c, m.distinctClusters[i]? = some c ∧ c.parent.bind m.clusterIndex? = some j := by
  rw [Clusters.LiesIn, declaredParents, Array.getD_eq_getD_getElem?, List.getElem?_toArray,
    List.getElem?_map]
  cases m.distinctClusters[i]? with
  | none => simp
  | some c =>
      simp only [Option.map_some, Option.getD_some, Option.some.injEq, exists_eq_left']
      rfl

/-- What is declared of clusters, by name. -/
lemma nestsIn_of_liesIn {m : Model α} {i j : Nat} (h : Clusters.LiesIn m.declaredParents i j) :
    m.NestsIn (m.clusterName i) (m.clusterName j) := by
  obtain ⟨c, hc, hparent⟩ := liesIn_declaredParents.mp h
  obtain ⟨parent, hparent, hj⟩ := Option.bind_eq_some_iff.mp hparent
  rw [(clusterName_of_clusterIndex? hj).2]
  exact ⟨c, List.mem_of_getElem? hc, by simp [clusterName, hc], hparent⟩

lemma liesIn_of_nestsIn {m : Model α} {id parent : Ident} {j : Nat} (h : m.NestsIn id parent)
    (hj : m.clusterIndex? parent = some j) :
    ∃ i, m.clusterIndex? id = some i ∧ Clusters.LiesIn m.declaredParents i j := by
  obtain ⟨c, hc, rfl, hparent⟩ := h
  obtain ⟨i, hi, rfl⟩ := List.getElem_of_mem hc
  refine ⟨i, Declared.indexOf?_getElem m.nodup_distinctClusters hi, ?_⟩
  exact liesIn_declaredParents.mpr ⟨_, List.getElem?_eq_getElem hi, by rw [hparent]; exact hj⟩

lemma transGen_liesIn_of_nestsIn {m : Model α} {id outer : Ident} {j : Nat}
    (h : TransGen m.NestsIn id outer) (hj : m.clusterIndex? outer = some j) :
    ∃ i, m.clusterIndex? id = some i ∧ TransGen (Clusters.LiesIn m.declaredParents) i j := by
  induction h using TransGen.head_induction_on with
  | single h =>
      obtain ⟨i, hi, hij⟩ := liesIn_of_nestsIn h hj
      exact ⟨i, hi, TransGen.single hij⟩
  | head h _ ih =>
      obtain ⟨k, hk, hkj⟩ := ih
      obtain ⟨i, hi, hik⟩ := liesIn_of_nestsIn h hk
      exact ⟨i, hi, TransGen.head hik hkj⟩

/-- A cluster that lies in itself is declared. -/
lemma exists_clusterIndex? {m : Model α} {id : Ident} (h : TransGen m.NestsIn id id) :
    ∃ i, m.clusterIndex? id = some i := by
  obtain ⟨_, ⟨c, hc, rfl, _⟩, _⟩ := TransGen.head'_iff.mp h
  obtain ⟨i, hi, rfl⟩ := List.getElem_of_mem hc
  exact ⟨i, Declared.indexOf?_getElem m.nodup_distinctClusters hi⟩

/-- **Cycles of clusters are cut once each.** -/
lemma encard_cycles (m : Model α) :
    {z | IsCycle m.NestsIn z}.encard = (Clusters.breakCycles m.declaredParents).2.length := by
  have hlt : ∀ {i}, i ∈ (Clusters.breakCycles m.declaredParents).2 →
      i < m.distinctClusters.length := by
    intro i hi
    obtain ⟨j, hij, _⟩ := TransGen.head'_iff.mp (Clusters.mem_cuts.mp hi).1
    obtain ⟨c, hc, _⟩ := liesIn_declaredParents.mp hij
    exact (List.getElem?_eq_some_iff.mp hc).1
  have hinj : ∀ i ∈ (Clusters.breakCycles m.declaredParents).2,
      ∀ j ∈ (Clusters.breakCycles m.declaredParents).2,
        m.clusterName i = m.clusterName j → i = j := by
    intro i hi j hj heq
    have hindex := clusterIndex?_clusterName (hlt hi)
    rw [heq, clusterIndex?_clusterName (hlt hj)] at hindex
    exact (Option.some.inj hindex).symm
  have hlift : ∀ {i j}, TransGen (Clusters.LiesIn m.declaredParents) i j →
      TransGen m.NestsIn (m.clusterName i) (m.clusterName j) := fun h =>
    TransGen.lift m.clusterName (fun _ _ => nestsIn_of_liesIn) _ _ h
  rw [← List.length_map (f := m.clusterName)]
  refine encard_isCycle m.rightUnique_nestsIn
    (List.Nodup.map_on hinj (Clusters.nodup_cuts _)) ?_ ?_ ?_
  · rw [List.forall_mem_map]
    exact fun i hi => hlift (Clusters.mem_cuts.mp hi).1
  · intro id hid
    obtain ⟨j, hj⟩ := exists_clusterIndex? hid
    obtain ⟨i, hi, hcycle⟩ := transGen_liesIn_of_nestsIn hid hj
    obtain rfl : i = j := Option.some.inj (hi.symm.trans hj)
    obtain ⟨first, hreach, hfirst⟩ := Clusters.exists_isFirst hcycle
    refine ⟨_, List.mem_map_of_mem (Clusters.mem_cuts.mpr hfirst), ?_⟩
    rw [← (clusterName_of_clusterIndex? hi).2]
    exact hlift hreach
  · rw [List.forall_mem_map]
    intro i hi
    rw [List.forall_mem_map]
    intro j hj hreach
    obtain ⟨k, hk, hkj⟩ := transGen_liesIn_of_nestsIn hreach (clusterIndex?_clusterName (hlt hj))
    obtain rfl : i = k := Option.some.inj ((clusterIndex?_clusterName (hlt hi)).symm.trans hk)
    rw [(Clusters.mem_cuts.mp hi).eq (Clusters.mem_cuts.mp hj) hkj]

/-! ### Nothing to report -/

namespace Reports

variable [Scalar α] {m : Model α} {ds : List (Diagnostic α)} (h : m.Reports ds)

include h

lemma duplicates_eq_nil_iff :
    subjects .duplicateId ds = [] ↔
      (m.nodes.map (·.id)).Nodup ∧ (m.clusters.map (·.id)).Nodup := by
  rw [h.duplicates, List.map_eq_nil_iff, List.append_eq_nil_iff, Declared.repeated_eq_nil_iff,
    Declared.repeated_eq_nil_iff]

lemma parents_eq_nil_iff (hnodes : (m.nodes.map (·.id)).Nodup)
    (hclusters : (m.clusters.map (·.id)).Nodup) :
    subjects .clusterNotFound ds = [] ↔
      (∀ n ∈ m.nodes, ∀ parent ∈ n.parent, parent ∈ m.clusters.map (·.id)) ∧
        ∀ c ∈ m.clusters, ∀ parent ∈ c.parent, parent ∈ m.clusters.map (·.id) := by
  rw [h.parents, distinctClusters, distinctNodes, Declared.firsts_of_nodup hnodes,
    Declared.firsts_of_nodup hclusters, List.map_eq_nil_iff, List.filter_eq_nil_iff]
  simp only [List.mem_append, List.mem_filterMap, decide_eq_true_eq, not_not]
  constructor
  · intro hall
    exact ⟨fun n hn parent hparent => hall parent (Or.inr ⟨n, hn, hparent⟩),
      fun c hc parent hparent => hall parent (Or.inl ⟨c, hc, hparent⟩)⟩
  · rintro ⟨hn, hc⟩ parent (⟨c, hmem, hparent⟩ | ⟨n, hmem, hparent⟩)
    · exact hc c hmem parent hparent
    · exact hn n hmem parent hparent

lemma ends_eq_nil_iff :
    subjects .nodeNotFound ds = [] ↔
      ∀ e ∈ m.edges, e.source ∈ m.nodes.map (·.id) ∧ e.target ∈ m.nodes.map (·.id) := by
  rw [h.ends, List.map_eq_nil_iff, List.filter_eq_nil_iff]
  simp only [List.mem_flatMap, List.mem_cons, List.not_mem_nil, or_false,
    decide_eq_true_eq, not_not]
  constructor
  · intro hall e he
    exact ⟨hall _ ⟨e, he, Or.inl rfl⟩, hall _ ⟨e, he, Or.inr rfl⟩⟩
  · rintro hall id ⟨e, he, rfl | rfl⟩
    · exact (hall e he).1
    · exact (hall e he).2

lemma cycles_eq_nil_iff :
    subjects .clusterCycle ds = [] ↔ ∀ id, ¬ TransGen m.NestsIn id id := by
  rw [← List.length_eq_zero_iff, ← ENat.natCast_inj, h.cycles, Nat.cast_zero, Set.encard_eq_zero]
  constructor
  · intro hnone id hid
    obtain ⟨z, hz, _⟩ := exists_isCycle m.rightUnique_nestsIn hid
    exact Set.eq_empty_iff_forall_notMem.mp hnone z hz
  · intro hnone
    rw [Set.eq_empty_iff_forall_notMem]
    intro z hz
    obtain ⟨id, hid⟩ := IsCycle.exists_mem hz
    exact hnone id (IsCycle.transGen hz hid hid)

lemma sizes_eq_nil_iff (hnodes : (m.nodes.map (·.id)).Nodup) :
    subjects .invalidSize ds = [] ↔ ∀ n ∈ m.nodes, ∀ size ∈ n.size, ¬ IsFaulty size := by
  rw [h.sizes, distinctNodes, Declared.firsts_of_nodup hnodes, List.map_eq_nil_iff,
    List.filter_eq_nil_iff]
  refine forall₂_congr fun n _ => ?_
  cases n.size with
  | none => simp
  | some size => simp

/-- Nothing is reported exactly of a graph that is well formed. -/
lemma eq_nil_iff : ds = [] ↔ m.WellFormed := by
  rw [Diagnostic.eq_nil_iff_subjects]
  constructor
  · intro hnone
    obtain ⟨hnodes, hclusters⟩ := h.duplicates_eq_nil_iff.mp (hnone _)
    obtain ⟨hn, hc⟩ := (h.parents_eq_nil_iff hnodes hclusters).mp (hnone _)
    exact ⟨hnodes, hclusters, hn, hc, h.cycles_eq_nil_iff.mp (hnone _),
      h.ends_eq_nil_iff.mp (hnone _), (h.sizes_eq_nil_iff hnodes).mp (hnone _)⟩
  · intro hm kind
    cases kind with
    | duplicateId => exact h.duplicates_eq_nil_iff.mpr ⟨hm.nodeNames, hm.clusterNames⟩
    | clusterNotFound =>
        exact (h.parents_eq_nil_iff hm.nodeNames hm.clusterNames).mpr
          ⟨hm.nodeParents, hm.clusterParents⟩
    | nodeNotFound => exact h.ends_eq_nil_iff.mpr hm.ends
    | clusterCycle => exact h.cycles_eq_nil_iff.mpr hm.acyclic
    | invalidSize => exact (h.sizes_eq_nil_iff hm.nodeNames).mpr hm.sizes
    | _ => exact h.others _ (by simp)

end Reports

end Model

/-! ### What is reported -/

lemma danglingFrom_eq (nodes : List (Node α)) (index : Nat) (edges : List Edge) :
    Containment.danglingFrom nodes index edges = (edges.zipIdx index).flatMap fun entry =>
      ([entry.1.source, entry.1.target].filter fun id =>
        (Declared.indexOf? Node.id nodes id).isNone).map (.nodeNotFound entry.2) := by
  induction edges generalizing index with
  | nil => rfl
  | cons e edges ih => rw [Containment.danglingFrom, ih, List.zipIdx_cons, List.flatMap_cons]

lemma not_isUsable_iff [Scalar α] [SignedScalar α] {size : Size α} :
    ¬ IsUsable size ↔ IsFaulty size := by
  have hside : ∀ x : α, ¬ (Scalar.isFinite x = true ∧ 0 ≤ x) ↔
      x < 0 ∨ Scalar.isFinite x = false := by
    intro x
    cases hx : Scalar.isFinite x with
    | true => simp [SignedScalar.not_nonneg_iff hx]
    | false => simp
  rw [IsUsable, not_and_or, hside, hside]
  rfl

variable [Scalar α]

/-- What is reported, category by category. -/
lemma subjects_diagnostics (kind : Diagnostic.Kind) (m : Model α) :
    subjects kind (Layout.diagnostics m) =
      (if .duplicateId = kind then (Declared.repeats Node.id m.nodes).map (some ·.id) else []) ++
      (if .duplicateId = kind then
        (Declared.repeats Cluster.id m.clusters).map (some ·.id) else []) ++
      (if .clusterNotFound = kind then m.distinctClusters.flatMap fun c =>
        (c.parent.toList.filter fun id => (m.clusterIndex? id).isNone).map some else []) ++
      (if .clusterCycle = kind then
        (Clusters.breakCycles m.declaredParents).2.map fun i => some (m.clusterName i) else []) ++
      (if .clusterNotFound = kind then m.distinctNodes.flatMap fun n =>
        (n.parent.toList.filter fun id => (m.clusterIndex? id).isNone).map some else []) ++
      (if .nodeNotFound = kind then (m.edges.zipIdx 0).flatMap fun entry =>
        ([entry.1.source, entry.1.target].filter fun id =>
          (Declared.indexOf? Node.id m.distinctNodes id).isNone).map some else []) ++
      (if .invalidSize = kind then m.distinctNodes.flatMap fun n =>
        (n.size.toList.filter fun size => decide (¬ IsUsable size)).map fun _ => some n.id
        else []) := by
  rw [Layout.diagnostics, Containment.diagnostics, danglingFrom_eq]
  simp only [Diagnostic.subjects_append]
  rw [Diagnostic.subjects_map .duplicateId fun _ => rfl,
    Diagnostic.subjects_map .duplicateId fun _ => rfl,
    Diagnostic.subjects_flatMap .clusterNotFound fun _ _ => rfl,
    Diagnostic.subjects_map .clusterCycle fun _ => rfl,
    Diagnostic.subjects_flatMap .clusterNotFound fun _ _ => rfl,
    Diagnostic.subjects_flatMap .nodeNotFound fun _ _ => rfl,
    Diagnostic.subjects_flatMap .invalidSize fun _ _ => rfl]
  rfl

omit [Scalar α] in
lemma flatMap_filter_toList {β : Type} (xs : List β) (f : β → Option Ident) (p : Ident → Bool) :
    (xs.flatMap fun x => ((f x).toList.filter p).map some) =
      ((xs.filterMap f).filter p).map some := by
  induction xs with
  | nil => rfl
  | cons x xs ih =>
      rw [List.flatMap_cons, ih]
      cases hx : f x with
      | none => simp [hx]
      | some id => cases hp : p id <;> simp [hx, hp]

lemma flatMap_filter_size [SignedScalar α] (nodes : List (Node α)) :
    (nodes.flatMap fun n =>
      (n.size.toList.filter fun size => decide (¬ IsUsable size)).map fun _ => some n.id) =
      (nodes.filter fun n => n.size.any fun size => IsFaulty size).map (some ·.id) := by
  induction nodes with
  | nil => rfl
  | cons n nodes ih =>
      rw [List.flatMap_cons, ih]
      cases hsize : n.size with
      | none => simp [hsize]
      | some size => by_cases hfaulty : IsFaulty size <;> simp [hsize, not_isUsable_iff, hfaulty]

/-- **Each fault of a graph is reported once, and nothing else is.** -/
lemma reports_diagnostics [SignedScalar α] (m : Model α) : m.Reports (Layout.diagnostics m) := by
  have hunknown : (fun id => (m.clusterIndex? id).isNone) =
      fun id => decide (id ∉ m.clusters.map (·.id)) := by
    funext id
    rw [Bool.eq_iff_iff, decide_eq_true_eq]
    exact Declared.indexOf?_firsts_isNone
  have hdangling : (fun id => (Declared.indexOf? Node.id m.distinctNodes id).isNone) =
      fun id => decide (id ∉ m.nodes.map (·.id)) := by
    funext id
    rw [Bool.eq_iff_iff, decide_eq_true_eq]
    exact Declared.indexOf?_firsts_isNone
  constructor
  case duplicates =>
    rw [subjects_diagnostics]
    simp only [if_true, reduceCtorEq, if_false, List.append_nil]
    rw [List.map_append, ← Declared.map_repeats, ← Declared.map_repeats, List.map_map, List.map_map]
    rfl
  case parents =>
    rw [subjects_diagnostics]
    simp only [if_true, reduceCtorEq, if_false, List.append_nil, List.nil_append]
    rw [hunknown, flatMap_filter_toList, flatMap_filter_toList, List.filter_append, List.map_append]
  case ends =>
    rw [subjects_diagnostics]
    simp only [if_true, reduceCtorEq, if_false, List.append_nil, List.nil_append]
    rw [hdangling, List.filter_flatMap, List.map_flatMap]
    conv_rhs => rw [← List.zipIdx_map_fst 0 m.edges, List.flatMap_map]
  case cycles =>
    rw [m.encard_cycles, subjects_diagnostics]
    simp only [if_true, reduceCtorEq, if_false, List.append_nil, List.nil_append, List.length_map]
  case sizes =>
    rw [subjects_diagnostics]
    simp only [if_true, reduceCtorEq, if_false, List.nil_append]
    exact flatMap_filter_size _
  case others =>
    intro kind hkind
    rw [subjects_diagnostics]
    simp only [List.mem_cons, List.not_mem_nil, or_false] at hkind
    rcases hkind with rfl | rfl | rfl | rfl | rfl <;> rfl

end Drafting.Graph

namespace Drafting.Diagram

open Drafting.Graph
open Diagnostic (subjects)

/-- **The faults of a graph are reported exactly.**  A drawing of it has one diagnostic for each
fault, and it has none if the graph is well formed and only then. -/
theorem graph_faults_are_reported {α : Type} [Scalar α] [SignedScalar α] {s : Setting α}
    {title caption : Option String} {m : Graph.Model α} {drawing : Drawing α}
    (h : layout s ⟨title, caption, .graph m⟩ = .ok drawing) :
    m.Reports drawing.diagnostics ∧ (drawing.diagnostics = [] ↔ m.WellFormed) := by
  obtain ⟨_, l, _, rfl⟩ := of_layout_graph h
  have hreports := reports_diagnostics m
  exact ⟨hreports, hreports.eq_nil_iff⟩

/-- Two cycles of clusters, a node that is declared twice, a negative size, an unknown cluster and a
dangling edge. -/
theorem faults_of_a_muddled_graph :
    let s : Setting Float32 := ⟨.standard, fun _ _ => ⟨10, 5⟩⟩
    let m : Graph.Model Float32 :=
      { nodes := [{ id := "a", parent := some "x" }, { id := "b", size := some ⟨-1, 5⟩ },
          { id := "a" }]
        edges := [{ source := "a", target := "z" }]
        clusters := [{ id := "p", parent := some "q" }, { id := "q", parent := some "p" },
          { id := "r", parent := some "r" }, { id := "t", parent := some "p" }] }
    ∃ drawing, layout s ⟨none, none, .graph m⟩ = .ok drawing ∧
      subjects .duplicateId drawing.diagnostics = [some "a"] ∧
      subjects .clusterNotFound drawing.diagnostics = [some "x"] ∧
      subjects .nodeNotFound drawing.diagnostics = [some "z"] ∧
      subjects .invalidSize drawing.diagnostics = [some "b"] ∧
      {z | IsCycle m.NestsIn z}.encard = 2 ∧ ¬ m.WellFormed := by
  intro s m
  have hvalid : s.config.validate = .ok () := by decide +kernel
  obtain ⟨l, hl⟩ := Layout.ofContainment_eq_ok s m (Containment.sound_ofModel m)
  have hlayout := layout_graph_eq hvalid none none hl
  rw [if_neg (by decide +kernel), if_neg (by decide +kernel)] at hlayout
  obtain ⟨hreports, hnone⟩ := graph_faults_are_reported hlayout
  refine ⟨_, hlayout, hreports.duplicates.trans ?_, hreports.parents.trans ?_,
    hreports.ends.trans ?_, hreports.sizes.trans ?_, hreports.cycles.symm.trans ?_, fun hm => ?_⟩
  · decide +kernel
  · decide +kernel
  · decide +kernel
  · decide +kernel
  · rw [hreports.cycles, m.encard_cycles]
    decide +kernel
  · have hduplicates := hreports.duplicates
    rw [hnone.mpr hm] at hduplicates
    exact absurd hduplicates (by decide +kernel)

end Drafting.Diagram
