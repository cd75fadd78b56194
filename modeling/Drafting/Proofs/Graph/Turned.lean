import Mathlib
import Drafting.Proofs.Declared
import Drafting.Proofs.Graph.Elements
import Drafting.Proofs.Graph.Twins

/-!
Graphs with the sides of their nodes exchanged.

* `Model.turned`: every node takes its width for its height and its height for its width.
* `Containment.ofModel_turned`, `Containment.orderedScopes_turned`: the same elements
  lie in the same clusters.
* `Layout.diagnostics_turned`: a graph whose sizes can be used has the same faults when turned.
* `Model.shapes_turned`: in the axes of the layout, a graph drawn from left to right asks for the
  same room as the turned graph drawn from top to bottom.
-/

namespace Drafting

/-- The same setting with graphs drawn in another direction. -/
def Setting.directed {α : Type} (s : Setting α) (d : Direction) : Setting α :=
  { s with config := { s.config with graph := s.config.graph.directed d } }

/-- The direction breaks no rule. -/
lemma Setting.validate_directed {α : Type} [Scalar α] (s : Setting α) (d : Direction) :
    (s.directed d).config.validate = s.config.validate := rfl

namespace Graph

variable {α : Type}

/-- The node with its sides exchanged. -/
def Node.turned (n : Node α) : Node α := { n with size := n.size.map Size.swap }

/-- The graph with the sides of all nodes exchanged. -/
def Model.turned (m : Model α) : Model α := { m with nodes := m.nodes.map Node.turned }

/-- The same elements in the same clusters, with the sides of all nodes exchanged. -/
def Containment.turned (c : Containment α) : Containment α :=
  { c with nodes := c.nodes.map Node.turned }

/-! ### Elements and clusters -/

lemma Node.id_turned (n : Node α) : n.turned.id = n.id := rfl

namespace Model

lemma distinctNodes_turned (m : Model α) :
    m.turned.distinctNodes = m.distinctNodes.map Node.turned :=
  Declared.firsts_map Node.id_turned m.nodes

lemma elementCount_turned (m : Model α) : m.turned.elementCount = m.elementCount := by
  rw [elementCount, elementCount, turned, List.length_map]

end Model

namespace Containment

lemma indexOf?_turned (nodes : List (Node α)) (id : Ident) :
    Declared.indexOf? Node.id (nodes.map Node.turned) id = Declared.indexOf? Node.id nodes id :=
  Declared.indexOf?_map Node.id_turned nodes id

/-- What an element lies in and what an edge connects are found by names. -/
lemma ofModel_turned (m : Model α) : ofModel m.turned = (ofModel m).turned := by
  have hends : (ofModel m.turned).ends = (ofModel m).ends := by
    simp only [ofModel, Model.distinctNodes_turned, indexOf?_turned]
    rfl
  have hclusters : (ofModel m.turned).nodeCluster = (ofModel m).nodeCluster := by
    simp only [ofModel, Model.distinctNodes_turned, List.map_map]
    rfl
  have hnodes : (ofModel m.turned).nodes = (ofModel m).nodes.map Node.turned :=
    m.distinctNodes_turned
  calc ofModel m.turned
      = ⟨(ofModel m.turned).nodes, (ofModel m.turned).nodeCluster, (ofModel m).clusters,
          (ofModel m).clusterParent, (ofModel m.turned).ends⟩ := rfl
    _ = (ofModel m).turned := by rw [hnodes, hclusters, hends]; rfl

variable (c : Containment α)

lemma liftFrom_turned (index : Nat) (ends : List Ends) :
    c.turned.liftFrom index ends = c.liftFrom index ends := by
  induction ends generalizing index with
  | nil => rfl
  | cons e ends ih =>
      simp only [liftFrom, ih]
      rfl

lemma orderedScopes_turned : c.turned.orderedScopes = c.orderedScopes := by
  have hscopes : c.turned.scopes = c.scopes := by
    rw [scopes, scopes, liftFrom_turned]
    rfl
  rw [orderedScopes, orderedScopes, hscopes]
  rfl

end Containment

lemma Placed.empty_turned [Scalar α] (c : Containment α) :
    Placed.empty c.turned = Placed.empty c := by
  rw [Placed.empty, Placed.empty, Containment.turned, List.length_map]

/-- Elements are placed by their numbers. -/
lemma Model.placed_turned [Scalar α] (m : Model α) (i : Interiors α) :
    m.turned.placed i = m.placed i := by
  rw [Model.placed, Model.placed, Placed.ofInteriors, Placed.ofInteriors,
    Containment.ofModel_turned, Containment.orderedScopes_turned, Placed.empty_turned]

/-! ### Faults -/

variable [Scalar α]

/-- A graph whose nodes all have sizes that can be used and whose clusters and edges have no
texts. -/
structure Model.Bare (m : Model α) : Prop where
  sizes : ∀ n ∈ m.nodes, ∃ size, n.size = some size ∧ IsUsable size
  clusters : ∀ k ∈ m.clusters, k.label = none
  edges : ∀ e ∈ m.edges, e.label = none

lemma IsUsable.swap {size : Size α} (h : IsUsable size) : IsUsable size.swap := ⟨h.2, h.1⟩

omit [Scalar α] in
lemma Containment.danglingFrom_turned (nodes : List (Node α)) (index : Nat) (edges : List Edge) :
    danglingFrom (nodes.map Node.turned) index edges = danglingFrom nodes index edges := by
  induction edges generalizing index with
  | nil => rfl
  | cons e edges ih => simp only [danglingFrom, indexOf?_turned, ih]

omit [Scalar α] in
lemma Containment.diagnostics_turned (m : Model α) : diagnostics m.turned = diagnostics m := by
  have hrepeats : Declared.repeats Node.id m.turned.nodes =
      (Declared.repeats Node.id m.nodes).map Node.turned :=
    Declared.repeats_map Node.id_turned m.nodes
  simp only [diagnostics, Model.distinctNodes_turned, danglingFrom_turned, hrepeats, List.map_map,
    List.flatMap_map]
  rfl

namespace Model

/-- A distinct node has a size that can be used. -/
lemma Bare.size {m : Model α} (h : m.Bare) {n : Node α} (hn : n ∈ m.distinctNodes) :
    ∃ size, n.size = some size ∧ IsUsable size :=
  h.sizes n (Declared.mem_of_mem_firsts hn)

lemma Bare.turned {m : Model α} (h : m.Bare) : m.turned.Bare where
  sizes := by
    intro n' hn'
    obtain ⟨n, hn, rfl⟩ := List.mem_map.mp hn'
    obtain ⟨size, hsize, husable⟩ := h.sizes n hn
    exact ⟨size.swap, congrArg (Option.map Size.swap) hsize, husable.swap⟩
  clusters := h.clusters
  edges := h.edges

/-- Sizes that can be used are not reported. -/
lemma Bare.diagnostics {m : Model α} (h : m.Bare) :
    Layout.diagnostics m = Containment.diagnostics m := by
  rw [Layout.diagnostics, List.append_right_eq_self, List.flatMap_eq_nil_iff]
  intro n hn
  obtain ⟨size, hsize, husable⟩ := h.size hn
  rw [hsize, Option.toList_some, List.filter_singleton, decide_eq_false (not_not.mpr husable)]
  rfl

/-- The faults of a graph are the same when it is turned. -/
lemma Bare.diagnostics_turned {m : Model α} (h : m.Bare) :
    Layout.diagnostics m.turned = Layout.diagnostics m := by
  rw [h.turned.diagnostics, h.diagnostics, Containment.diagnostics_turned]

/-! ### Room -/

variable {m : Model α}

/-- A node in a graph of this kind takes the room it asks for. -/
lemma nodeSize_of_usable (config : GraphConfig α) {n : Node α} {size : Size α}
    (hsize : n.size = some size) (husable : IsUsable size) (label : MeasuredText α) :
    Measures.nodeSize config n label = size := by
  rw [Measures.nodeSize, hsize]
  exact if_pos husable

/-- The texts are the same, in whichever direction the graph is drawn. -/
lemma measures_turned (s : Setting α) (m : Model α) (d d' : Direction) :
    Measures.ofModel (s.directed d) (Containment.ofModel m.turned) m.turned =
      Measures.ofModel (s.directed d') (Containment.ofModel m) m := by
  rw [Containment.ofModel_turned, Measures.ofModel, Containment.turned, List.map_map]
  rfl

/-- **In the axes of the layout both graphs ask for the same room.** -/
lemma Bare.shapes_turned (h : m.Bare) (s : Setting α) :
    m.turned.shapes (s.directed .topToBottom) = m.shapes (s.directed .leftToRight) := by
  have hsizes : ∀ entry ∈ (Containment.ofModel m).nodes.zip
      (Measures.ofModel (s.directed .leftToRight) (Containment.ofModel m) m).nodes,
      (Measures.nodeSize (s.config.graph.directed .topToBottom) entry.1.turned entry.2).orient
          .topToBottom =
        (Measures.nodeSize (s.config.graph.directed .leftToRight) entry.1 entry.2).orient
          .leftToRight := by
    intro entry hentry
    obtain ⟨size, hsize, husable⟩ := h.size (List.of_mem_zip hentry).1
    have hturned : entry.1.turned.size = some size.swap := congrArg (Option.map Size.swap) hsize
    rw [nodeSize_of_usable _ hsize husable, nodeSize_of_usable _ hturned husable.swap]
    rfl
  have hlabels : ∀ entry ∈ m.edges.zip
      (Measures.ofModel (s.directed .leftToRight) (Containment.ofModel m) m).edges,
      entry.2 = none := by
    intro entry hentry
    obtain ⟨e, he, hlabel⟩ := List.mem_map.mp (List.of_mem_zip hentry).2
    rw [← hlabel, h.edges e he]
    rfl
  have hnodes : (m.turned.shapes (s.directed .topToBottom)).nodes =
      (m.shapes (s.directed .leftToRight)).nodes := by
    rw [shapes, shapes, measures_turned s m .topToBottom .leftToRight]
    simp only [Measures.shapes, Containment.ofModel_turned, Containment.turned, List.zip_map_left,
      List.map_map]
    exact congrArg List.toArray (List.map_congr_left hsizes)
  have hedges : (m.turned.shapes (s.directed .topToBottom)).edges =
      (m.shapes (s.directed .leftToRight)).edges := by
    rw [shapes, shapes, measures_turned s m .topToBottom .leftToRight]
    refine congrArg List.toArray (List.map_congr_left ?_)
    rintro ⟨e, label⟩ hentry
    obtain rfl : label = none := hlabels _ hentry
    rfl
  have hheads : (m.turned.shapes (s.directed .topToBottom)).heads =
      (m.shapes (s.directed .leftToRight)).heads := rfl
  calc m.turned.shapes (s.directed .topToBottom)
      = ⟨(m.turned.shapes (s.directed .topToBottom)).nodes,
          (m.turned.shapes (s.directed .topToBottom)).heads,
          (m.turned.shapes (s.directed .topToBottom)).edges⟩ := rfl
    _ = m.shapes (s.directed .leftToRight) := by rw [hnodes, hheads, hedges]

/-- There is nothing in the heads of clusters. -/
lemma Bare.heads (h : m.Bare) (s : Setting α) (k : Nat) :
    (m.shapes s).heads.getD k Size.zero = Size.zero := by
  simp only [shapes, Measures.shapes, Measures.ofModel, Array.getD_eq_getD_getElem?,
    List.getElem?_toArray, List.getElem?_map]
  cases hk : (Containment.ofModel m).clusters[k]? with
  | none => rfl
  | some cluster =>
      have hlabel := h.clusters cluster (Declared.mem_of_mem_firsts (List.mem_of_getElem? hk))
      simp only [Option.map_some, hlabel]
      rfl

/-- There is nothing beside edges. -/
lemma Bare.labelOf (h : m.Bare) (s : Setting α) (index : Nat) :
    Component.labelOf (m.shapes s).edges index = none := by
  cases he : m.edges[index]? with
  | none =>
      have hshape : (m.shapes s).edges[index]? = none := by
        simp [shapes, Measures.shapes, Measures.ofModel, List.getElem?_eq_none_iff.mp he]
      rw [Component.labelOf, hshape]
      rfl
  | some e =>
      have hsome := isSome_labelOf (s := s) he
      rw [h.edges e (List.mem_of_getElem? he)] at hsome
      exact Option.isNone_iff_eq_none.mp (by simpa using hsome)

/-- No node is smaller than nothing across the ranks. -/
lemma Bare.nodes_nonneg [Lengths α] (h : m.Bare) (s : Setting α) (n : Nat) :
    0 ≤ ((m.shapes (s.directed .leftToRight)).nodes.getD n Size.zero).width := by
  simp only [shapes, Measures.shapes, Array.getD_eq_getD_getElem?, List.getElem?_toArray,
    List.getElem?_map]
  cases hentry : ((Containment.ofModel m).nodes.zip (Measures.ofModel (s.directed .leftToRight)
      (Containment.ofModel m) m).nodes)[n]? with
  | none => exact Lengths.zero_le_zero
  | some entry =>
      obtain ⟨size, hsize, husable⟩ := h.size (List.of_mem_zip (List.mem_of_getElem? hentry)).1
      simp only [Option.map_some, Option.getD_some, nodeSize_of_usable _ hsize husable]
      exact husable.2.2

end Model

end Graph

end Drafting
