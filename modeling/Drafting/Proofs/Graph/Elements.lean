import Mathlib
import Drafting.Proofs.Graph.Laminar
import Drafting.Proofs.Graph.Ways

/-!
What is drawn for the elements of a graph.

Every distinct node and cluster is drawn once, and so is every edge.  How an edge is drawn depends
on its ends and on the ranks of the members that contain them in the innermost scope around both.

* `Model.interiors`, `Model.rankIn`: the scopes of a graph laid out, and the ranks in them.
* `Layout.PassesRanks`: points of a drawing are the routing points of an edge.
* `Model.Depicts`: what is drawn for an edge.
* `Diagram.graph_elements_are_drawn_once`: every element of a graph is drawn so.
-/

namespace Drafting.Graph

variable {α : Type} [Scalar α]

/-! ### Ranks of the ends of an edge -/

namespace Model

/-- The sizes of all that is to be placed. -/
def shapes (s : Setting α) (m : Model α) : Shapes α :=
  (Measures.ofModel s (Containment.ofModel m) m).shapes s.config.graph (Containment.ofModel m) m

/-- The scopes of a graph laid out by themselves. -/
def interiors (s : Setting α) (m : Model α) : Except (Inconsistency α) (Interiors α) :=
  Interiors.ofScopes s.config.graph (m.shapes s) (Containment.ofModel m).clusters.length
    (Containment.ofModel m).orderedScopes

omit [Scalar α] in
/-- A node is declared. -/
def HasNode (m : Model α) (id : Ident) : Prop := id ∈ m.nodes.map (·.id)

omit [Scalar α] in
/-- The number of a node. -/
def nodeNumber (m : Model α) (id : Ident) : Nat :=
  (Declared.indexOf? Node.id m.distinctNodes id).getD 0

omit [Scalar α] in
/-- The innermost cluster around both ends of an edge; none if only the whole diagram is. -/
def containerOf (m : Model α) (e : Edge) : Option Nat :=
  (Containment.ofModel m).common (m.nodeNumber e.source) (m.nodeNumber e.target)

/-- The rank, in the innermost scope around both ends of an edge, of the member that contains a
node. -/
def rankIn (m : Model α) (i : Interiors α) (e : Edge) (id : Ident) : Nat :=
  i.rankIn (Containment.ofModel m) (m.containerOf e) (m.nodeNumber id)

end Model

/-! ### Routing points in a drawing -/

/-- How a part of a scope is moved to its place in a drawing. -/
structure Motion (α : Type) where
  /-- How far it is moved in its scope. -/
  inScope : Point α
  /-- How far the scope is moved in the diagram. -/
  inDiagram : Point α
  /-- The direction of the diagram. -/
  direction : Direction
  /-- How far the diagram is moved on the sheet. -/
  onSheet : Point α

namespace Motion

/-- Moves a point. -/
def point (k : Motion α) (p : Point α) : Point α :=
  (((p.add k.inScope).add k.inDiagram).orient k.direction).add k.onSheet

/-- Moves a box. -/
def box (k : Motion α) (b : Bounds α) : Bounds α :=
  (((b.translate k.inScope).translate k.inDiagram).orient k.direction).translate k.onSheet

end Motion

/-- Points of a drawing are routing points of an edge of a scope, one on each rank strictly between
two ranks, from the first rank to the second.  They are where the layered graph of a part of the
scope has them, moved as the members of the part are. -/
def Layout.PassesRanks (config : GraphConfig α) (sizes : Array (Size α))
    (shapes : Array (EdgeShape α)) (scope : Scope) (l : Layout α) (index a b : Nat)
    (points : List (Point α)) : Prop :=
  ∃ part ∈ Component.ofScope scope, ∃ (named : Nat) (ranking : Ranking) (motion : Motion α),
    Ranking.ofDigraph (α := α) (part.digraph shapes) = .ok ranking ∧
    let r := part.routing config sizes shapes named ranking
    (∀ j v member, part.members[j]? = some v → scope.members[v]? = some member →
      l.boxOf? member =
        some (motion.box (Bounds.around (r.center j) (Component.sizeOf sizes v)))) ∧
    ∃ link nodes, part.links[link]?.map (·.edge) = some index ∧
      r.layering.Along link (ranksBetween a b) nodes ∧
      points = nodes.map fun v => motion.point (r.center v)

/-- What is drawn for an edge: `l` is the drawing, `i` are the scopes laid out by themselves. -/
structure Model.Depicts (s : Setting α) (m : Model α) (i : Interiors α) (l : Layout α) (index : Nat)
    (e : Edge) (g : EdgeGeometry α) : Prop where
  number : g.index = index
  ends : g.source = e.source ∧ g.target = e.target
  unresolved_iff : g.kind = .unresolved ↔ ¬ (m.HasNode e.source ∧ m.HasNode e.target)
  loop_iff : g.kind = .selfLoop ↔
    (m.HasNode e.source ∧ m.HasNode e.target) ∧ e.source = e.target
  flat_iff : g.kind = .flat ↔ (m.HasNode e.source ∧ m.HasNode e.target) ∧ e.source ≠ e.target ∧
    m.rankIn i e e.source = m.rankIn i e e.target
  normal_iff : g.kind = .normal ↔ (m.HasNode e.source ∧ m.HasNode e.target) ∧
    e.source ≠ e.target ∧ m.rankIn i e e.source ≠ m.rankIn i e e.target
  both_missing : ¬ m.HasNode e.source → ¬ m.HasNode e.target → g.points.length = 0
  one_missing : ¬ (m.HasNode e.source ↔ m.HasNode e.target) → g.points.length = 2
  loop : g.kind = .selfLoop → g.points.length = 4
  flat : g.kind = .flat → g.points.length = 2 ∨ g.points.length = 4
  normal : g.kind = .normal →
    g.points.length =
      ((m.rankIn i e e.source : Int) - (m.rankIn i e e.target : Int)).natAbs + 1 ∧
    ∃ first inner last, g.points = first :: (inner ++ [last]) ∧
      l.PassesRanks s.config.graph
        (i.sizes (m.shapes s) ((Containment.ofModel m).scopeOf (m.containerOf e)))
        (m.shapes s).edges ((Containment.ofModel m).scopeOf (m.containerOf e)) index
        (m.rankIn i e e.source) (m.rankIn i e e.target) inner
  reversed : g.kind = .selfLoop ∨ g.kind = .unresolved → g.reversed = false
  label : g.label.isSome ↔ e.label.isSome ∧ g.kind ≠ .unresolved

/-! ### Lists of drawn elements -/

namespace Layout

/-- Edges are drawn one by one. -/
lemma of_edgesFrom {config : GraphConfig α} {p : Placed α} {index : Nat}
    {edges : List (Edge × Option (MeasuredText α) × Ends)} {drawn : List (EdgeGeometry α)}
    (h : edgesFrom config p index edges = .ok drawn) :
    drawn.length = edges.length ∧
      ∀ j e label ends, edges[j]? = some (e, label, ends) →
        ∃ line, Line.ofEnds config p (index + j) ends = .ok line ∧
          drawn[j]? = some (edge config.direction (index + j) e label line) := by
  induction edges generalizing index drawn with
  | nil =>
      obtain rfl := Except.ok.inj h
      exact ⟨rfl, by simp⟩
  | cons first edges ih =>
      obtain ⟨e, label, ends⟩ := first
      rw [edgesFrom] at h
      cases hline : Line.ofEnds config p index ends with
      | error failure => simp [hline, bind, Except.bind] at h
      | ok line =>
          cases hrest : edgesFrom config p (index + 1) edges with
          | error failure => simp [hline, hrest, bind, Except.bind] at h
          | ok rest =>
              simp only [hline, hrest, bind, Except.bind, Except.ok.injEq] at h
              subst h
              obtain ⟨hlength, hall⟩ := ih hrest
              refine ⟨congrArg (· + 1) hlength, fun j e' label' ends' hj => ?_⟩
              cases j with
              | zero =>
                  obtain ⟨rfl, rfl, rfl⟩ : e = e' ∧ label = label' ∧ ends = ends' := by
                    simpa using hj
                  exact ⟨line, hline, rfl⟩
              | succ j =>
                  obtain ⟨line', hline', hdrawn⟩ := hall j e' label' ends' hj
                  rw [Nat.add_assoc, Nat.add_comm 1 j] at hline' hdrawn
                  exact ⟨line', hline', hdrawn⟩

/-- The edges of a drawing. -/
lemma edges_of_ofContainment {s : Setting α} {m : Model α} {c : Containment α} {i : Interiors α}
    {l : Layout α}
    (hi : Interiors.ofScopes s.config.graph ((Measures.ofModel s c m).shapes s.config.graph c m)
      c.clusters.length c.orderedScopes = .ok i) (h : ofContainment s m c = .ok l) :
    edgesFrom s.config.graph (Placed.ofInteriors c c.orderedScopes i) 0
      (m.edges.zip ((Measures.ofModel s c m).edges.zip c.ends)) = .ok l.edges := by
  simp only [ofContainment, hi, bind, Except.bind] at h
  split at h
  · cases h
  · next edges hedges =>
      obtain rfl := Except.ok.inj h
      exact hedges

variable {s : Setting α} {m : Model α} {c : Containment α} {p : Placed α} {l : Layout α}

/-- The distinct nodes are drawn in order. -/
lemma Shows.ids_nodes (h : Shows s m c p l) : l.nodes.map (·.id) = c.nodes.map (·.id) := by
  rw [h.nodes, nodesOf]
  refine List.ext_getElem (by simp [Measures.ofModel]) fun j _ _ => ?_
  simp

/-- The distinct clusters are drawn in order. -/
lemma Shows.ids_clusters (h : Shows s m c p l) :
    l.clusters.map (·.id) = c.clusters.map (·.id) := by
  rw [h.clusters, clustersOf]
  refine List.ext_getElem (by simp [Measures.ofModel]) fun j _ _ => ?_
  simp

/-- An element is drawn where it is placed. -/
lemma Shows.boxOf?_of_holds (h : Shows s m c p l) (hc : c.Sound) {member : Member}
    (hm : c.Declares member) {place : PlacedMember α} (hplace : p.Holds member place) :
    l.boxOf? member = some (place.bounds.orient s.config.graph.direction) := by
  cases member with
  | node n =>
      have hn : n < c.nodes.length := lt_of_lt_of_eq hm hc.size_nodeCluster
      obtain ⟨g, hg, hbounds, -⟩ := h.getElem?_nodes hn
      have hplace : p.node n = place := hplace
      rw [boxOf?, hg, Option.map_some, hbounds, hplace]
  | cluster k =>
      have hk : k < c.clusters.length := lt_of_lt_of_eq hm hc.size_clusterParent
      obtain ⟨g, hg, -, hbounds, -⟩ := h.getElem?_clusters (List.getElem?_eq_getElem hk)
      have hplace : p.cluster k = place.bounds := hplace
      rw [boxOf?, hg, Option.map_some, hbounds, hplace]

end Layout

/-! ### One edge -/

section Drawn

variable (d : Direction) (index : Nat) (e : Edge) (label : Option (MeasuredText α)) (line : Line α)
  (offset : Point α)

@[simp]
lemma kind_translate_edge :
    ((Layout.edge d index e label line).translate offset).kind = line.kind :=
  rfl

@[simp]
lemma length_points_translate_edge :
    ((Layout.edge d index e label line).translate offset).points.length = line.points.length := by
  simp [Layout.edge, EdgeGeometry.translate]

/-- An edge is drawn with a text if it has one and there is a box for it. -/
@[simp]
lemma isSome_label_translate_edge :
    ((Layout.edge d index e label line).translate offset).label.isSome =
      (label.isSome && line.label.isSome) := by
  cases label <;> cases hbox : line.label <;> simp [Layout.edge, EdgeGeometry.translate, hbox]

end Drawn

/-- The line of an edge that lacks an end. -/
lemma Line.ofEnds_of_missing {config : GraphConfig α} {p : Placed α} {index : Nat}
    {source target : Option Nat} (h : ¬ (source.isSome ∧ target.isSome)) :
    Line.ofEnds config p index ⟨source, target⟩ =
      .ok ⟨.unresolved, stub (Scalar.half config.rankGap)
        (source.map fun n => (p.node n).bounds) (target.map fun n => (p.node n).bounds),
        false, none⟩ := by
  cases source with
  | none => rfl
  | some n =>
      cases target with
      | none => rfl
      | some k => exact absurd ⟨rfl, rfl⟩ h

/-- The line of an edge with both ends. -/
lemma Line.of_ofEnds {config : GraphConfig α} {p : Placed α} {index n k : Nat} {line : Line α}
    (h : Line.ofEnds config p index ⟨some n, some k⟩ = .ok line) :
    ∃ way, p.edge? index = some way ∧
      line = ⟨way.kind, edgePoints way (p.node n).bounds (p.node k).bounds, way.reversed,
        way.label⟩ := by
  rw [Line.ofEnds] at h
  dsimp only at h
  split at h
  · next way hway => exact ⟨way, hway, (Except.ok.inj h).symm⟩
  · cases h

namespace Model

variable {s : Setting α} {m : Model α} {i : Interiors α} {l : Layout α} {index : Nat} {e : Edge}

omit [Scalar α] in
lemma hasNode_iff {id : Ident} :
    m.HasNode id ↔ (Declared.indexOf? Node.id m.distinctNodes id).isSome := by
  rw [← not_iff_not, Bool.not_eq_true, Option.isSome_eq_false_iff, distinctNodes,
    Declared.indexOf?_firsts_isNone]
  rfl

omit [Scalar α] in
/-- Nodes are told apart by their names. -/
lemma eq_iff_of_indexOf? {id id' : Ident} {n k : Nat}
    (h : Declared.indexOf? Node.id m.distinctNodes id = some n)
    (h' : Declared.indexOf? Node.id m.distinctNodes id' = some k) : n = k ↔ id = id' := by
  constructor
  · rintro rfl
    rw [Declared.indexOf?, List.findIdx?_eq_some_iff_getElem] at h h'
    obtain ⟨hn, hid, -⟩ := h
    obtain ⟨hn', hid', -⟩ := h'
    exact (beq_iff_eq.mp hid).symm.trans (beq_iff_eq.mp hid')
  · rintro rfl
    exact Option.some.inj (h.symm.trans h')

/-- An edge that lacks an end is a short line at the end it has. -/
lemma depicts_stub (hmissing : ¬ (m.HasNode e.source ∧ m.HasNode e.target)) (d : Direction)
    (label : Option (MeasuredText α)) (length : α) (box : Nat → Bounds α) (offset : Point α) :
    m.Depicts s i l index e ((Layout.edge d index e label ⟨.unresolved,
      stub length ((Declared.indexOf? Node.id m.distinctNodes e.source).map box)
        ((Declared.indexOf? Node.id m.distinctNodes e.target).map box),
      false, none⟩).translate offset) := by
  constructor
  case number => rfl
  case ends => exact ⟨rfl, rfl⟩
  case unresolved_iff => exact iff_of_true rfl hmissing
  case loop_iff => exact iff_of_false (by simp) fun h => hmissing h.1
  case flat_iff => exact iff_of_false (by simp) fun h => hmissing h.1
  case normal_iff => exact iff_of_false (by simp) fun h => hmissing h.1
  case both_missing =>
    intro hsource htarget
    rw [hasNode_iff, Option.not_isSome_iff_eq_none] at hsource htarget
    rw [length_points_translate_edge, hsource, htarget]
    rfl
  case one_missing =>
    intro hone
    rw [hasNode_iff, hasNode_iff] at hone
    rw [length_points_translate_edge]
    cases hsource : Declared.indexOf? Node.id m.distinctNodes e.source with
    | some n => rfl
    | none =>
        cases htarget : Declared.indexOf? Node.id m.distinctNodes e.target with
        | some k => rfl
        | none => simp [hsource, htarget] at hone
  case loop => simp
  case flat => simp
  case normal => simp
  case reversed => exact fun _ => rfl
  case label =>
    exact iff_of_false (by simp) fun h => h.2 rfl

/-- The line of an edge that is no loop leads from box to box by its way. -/
lemma exists_edgePoints {way : RoutedEdge α} (h : way.kind ≠ .selfLoop) (source target : Bounds α) :
    ∃ first last, edgePoints way source target = first :: (way.waypoints ++ [last]) := by
  rw [edgePoints]
  split
  · contradiction
  · exact ⟨_, _, rfl⟩

/-- An edge with both ends is drawn by its way. -/
lemma depicts_way {n k : Nat}
    (hsource : Declared.indexOf? Node.id m.distinctNodes e.source = some n)
    (htarget : Declared.indexOf? Node.id m.distinctNodes e.target = some k) {way : RoutedEdge α}
    {g : Layering α} {center : Nat → Point α} {own : Nat → Prop} {label : Option (MeasuredText α)}
    (hway : way.Follows g center own (n = k) (m.rankIn i e e.source) (m.rankIn i e e.target)
      label.isSome)
    (hlabel : label.isSome = e.label.isSome) (d : Direction) (source target : Bounds α)
    (offset : Point α)
    (hpasses : way.kind = .normal → l.PassesRanks s.config.graph
      (i.sizes (m.shapes s) ((Containment.ofModel m).scopeOf (m.containerOf e))) (m.shapes s).edges
      ((Containment.ofModel m).scopeOf (m.containerOf e)) index (m.rankIn i e e.source)
      (m.rankIn i e e.target) (way.waypoints.map fun p => (p.orient d).add offset)) :
    m.Depicts s i l index e ((Layout.edge d index e label ⟨way.kind, edgePoints way source target,
      way.reversed, way.label⟩).translate offset) := by
  have hboth : m.HasNode e.source ∧ m.HasNode e.target := by
    rw [hasNode_iff, hasNode_iff, hsource, htarget]
    exact ⟨rfl, rfl⟩
  have hloop := hway.loop_iff
  have hflat := hway.flat_iff
  have hnormal := hway.normal_iff
  rw [eq_iff_of_indexOf? hsource htarget] at hloop hflat hnormal
  have hresolved := hway.resolved
  constructor
  case number => rfl
  case ends => exact ⟨rfl, rfl⟩
  case unresolved_iff => exact iff_of_false hresolved fun h => h hboth
  case loop_iff => exact hloop.trans (and_iff_right hboth).symm
  case flat_iff => exact hflat.trans (and_iff_right hboth).symm
  case normal_iff => exact hnormal.trans (and_iff_right hboth).symm
  case both_missing => exact fun h => absurd hboth.1 h
  case one_missing => exact fun h => absurd (iff_of_true hboth.1 hboth.2) h
  case loop =>
    intro hkind
    have hkind : way.kind = .selfLoop := hkind
    rw [length_points_translate_edge, edgePoints, hkind]
    exact (hway.loop hkind).2
  case flat =>
    intro hkind
    have hkind : way.kind = .flat := hkind
    obtain ⟨first, last, hpoints⟩ := exists_edgePoints (by rw [hkind]; decide) source target
    have hcount := hway.flat hkind
    rw [length_points_translate_edge, hpoints, List.length_cons, List.length_append,
      List.length_singleton]
    omega
  case normal =>
    intro hkind
    have hkind : way.kind = .normal := hkind
    obtain ⟨first, last, hpoints⟩ := exists_edgePoints (by rw [hkind]; decide) source target
    refine ⟨?_, (first.orient d).add offset, way.waypoints.map fun p => (p.orient d).add offset,
      (last.orient d).add offset, ?_, hpasses hkind⟩
    · have hcount := hway.length_waypoints hkind
      have hne := (hnormal.mp hkind).2
      rw [length_points_translate_edge, hpoints, List.length_cons, List.length_append,
        List.length_singleton]
      omega
    · simp [Layout.edge, EdgeGeometry.translate, hpoints, Function.comp_def]
  case reversed =>
    rintro (hkind | hkind)
    · exact (hway.loop hkind).1
    · exact absurd hkind hresolved
  case label =>
    have hplaced : way.label.isSome = label.isSome := Bool.eq_iff_iff.mpr hway.label
    rw [isSome_label_translate_edge, hplaced, Bool.and_self, hlabel]
    exact (and_iff_left hresolved).symm

/-- The shape of an edge: its length, and the size of its text. -/
lemma getElem?_edges_shapes (s : Setting α) (m : Model α) (index : Nat) :
    (m.shapes s).edges[index]? = m.edges[index]?.map fun e =>
      ⟨e.length, e.label.map fun text =>
        (s.measured text s.config.styles.edge none).size.orient s.config.graph.direction⟩ := by
  simp only [shapes, Measures.shapes, Measures.ofModel, List.getElem?_toArray]
  rw [← List.map_prod_left_eq_zip]
  simp only [List.getElem?_map, Option.map_map, Function.comp_def]

/-- The shape of an edge has room for its text. -/
lemma isSome_labelOf (he : m.edges[index]? = some e) :
    (Component.labelOf (m.shapes s).edges index).isSome = e.label.isSome := by
  rw [Component.labelOf, getElem?_edges_shapes, he, Option.map_some, Option.bind_some,
    Option.isSome_map]

/-- Every element of a graph in its place, in the axes of the layout. -/
def placed (m : Model α) (i : Interiors α) : Placed α :=
  Placed.ofInteriors (Containment.ofModel m) (Containment.ofModel m).orderedScopes i

/-- What is drawn for an edge with both ends. -/
lemma depicts_of_way (hi : m.interiors s = .ok i)
    (hl : Layout.ofContainment s m (Containment.ofModel m) = .ok l) (offset : Point α)
    (he : m.edges[index]? = some e) {n k : Nat}
    (hsource : Declared.indexOf? Node.id m.distinctNodes e.source = some n)
    (htarget : Declared.indexOf? Node.id m.distinctNodes e.target = some k) {way : RoutedEdge α}
    (hway : (m.placed i).edge? index = some way) (source target : Bounds α) :
    m.Depicts s i (l.translate offset) index e
      ((Layout.edge s.config.graph.direction index e
        (e.label.map fun text => s.measured text s.config.styles.edge none)
        ⟨way.kind, edgePoints way source target, way.reversed, way.label⟩).translate offset) := by
  have hsound := Containment.sound_ofModel m
  have hends : (Containment.ofModel m).ends[index]? = some ⟨some n, some k⟩ := by
    rw [← hsource, ← htarget]
    simp [Containment.ofModel, he]
  have hsettled := Interiors.settled_of_ok hsound hi
  obtain ⟨part, hpart, named, ranking, moved, hranking, hboxes, hfollows⟩ :=
    Placed.exists_follows hsound hsettled hends hway
  have hlabel : (e.label.map fun text => s.measured text s.config.styles.edge none).isSome =
      e.label.isSome := Option.isSome_map
  -- the numbers of the ends are those that the ranks are taken by
  have hn : n = m.nodeNumber e.source := by rw [nodeNumber, hsource, Option.getD_some]
  have hk : k = m.nodeNumber e.target := by rw [nodeNumber, htarget, Option.getD_some]
  subst hn hk
  rw [isSome_labelOf he, ← hlabel] at hfollows
  refine depicts_way hsource htarget hfollows hlabel _ _ _ offset fun hkind => ?_
  obtain ⟨link, points, hlink, halong, hpoints⟩ := hfollows.normal hkind
  refine ⟨part, hpart, named, ranking,
    ⟨moved, (m.placed i).origin i (m.containerOf e), s.config.graph.direction, offset⟩, hranking,
    fun j v member hv hmember => ?_, link, points, hlink, halong, ?_⟩
  · obtain ⟨place, hplace, hbounds⟩ := hboxes j v member hv hmember
    have hdeclared := (Containment.mem_members.mp (List.mem_of_getElem? hmember)).1
    rw [Layout.boxOf?_translate, (Layout.shows_of_ofContainment hi hl).boxOf?_of_holds hsound
      hdeclared hplace, hbounds]
    rfl
  · rw [hpoints, List.map_map]
    rfl

/-- The line that is drawn for an edge. -/
lemma exists_line (hi : m.interiors s = .ok i)
    (hl : Layout.ofContainment s m (Containment.ofModel m) = .ok l)
    (he : m.edges[index]? = some e) :
    ∃ line, Line.ofEnds s.config.graph (m.placed i) index
        ⟨Declared.indexOf? Node.id m.distinctNodes e.source,
          Declared.indexOf? Node.id m.distinctNodes e.target⟩ = .ok line ∧
      l.edges[index]? = some (Layout.edge s.config.graph.direction index e
        (e.label.map fun text => s.measured text s.config.styles.edge none) line) := by
  have hdrawn := Layout.edges_of_ofContainment hi hl
  have hends : (Containment.ofModel m).ends[index]? =
      some ⟨Declared.indexOf? Node.id m.distinctNodes e.source,
        Declared.indexOf? Node.id m.distinctNodes e.target⟩ := by
    simp [Containment.ofModel, he]
  obtain ⟨line, hline, hedge⟩ := (Layout.of_edgesFrom hdrawn).2 index e
    (e.label.map fun text => s.measured text s.config.styles.edge none) _
    (List.getElem?_zip_eq_some.mpr ⟨he, List.getElem?_zip_eq_some.mpr
      ⟨by simp [Measures.ofModel, he], hends⟩⟩)
  rw [Nat.zero_add] at hline hedge
  exact ⟨line, hline, hedge⟩

/-- Every edge is drawn. -/
lemma length_edges (hi : m.interiors s = .ok i)
    (hl : Layout.ofContainment s m (Containment.ofModel m) = .ok l) :
    l.edges.length = m.edges.length := by
  rw [(Layout.of_edgesFrom (Layout.edges_of_ofContainment hi hl)).1]
  simp [Measures.ofModel, Containment.ofModel]

/-- **What is drawn for an edge.** -/
lemma depicts (hi : m.interiors s = .ok i)
    (hl : Layout.ofContainment s m (Containment.ofModel m) = .ok l) (offset : Point α)
    (he : m.edges[index]? = some e) {g : EdgeGeometry α}
    (hg : (l.translate offset).edges[index]? = some g) :
    m.Depicts s i (l.translate offset) index e g := by
  obtain ⟨line, hline, hedge⟩ := exists_line hi hl he
  obtain rfl : _ = g := by
    simpa [Layout.translate, hedge] using hg
  by_cases hboth : m.HasNode e.source ∧ m.HasNode e.target
  · obtain ⟨n, hsource⟩ := Option.isSome_iff_exists.mp (hasNode_iff.mp hboth.1)
    obtain ⟨k, htarget⟩ := Option.isSome_iff_exists.mp (hasNode_iff.mp hboth.2)
    rw [hsource, htarget] at hline
    obtain ⟨way, hway, rfl⟩ := Line.of_ofEnds hline
    exact depicts_of_way hi hl offset he hsource htarget hway _ _
  · rw [Line.ofEnds_of_missing (by rwa [← hasNode_iff, ← hasNode_iff])] at hline
    obtain rfl := Except.ok.inj hline
    exact depicts_stub hboth _ _ _ _ _

end Model

end Drafting.Graph

namespace Drafting.Diagram

open Drafting.Graph

/-- **Every element of a graph is drawn once.**  Nodes and clusters are drawn in the order in which
their names are first declared, and edges in their order.  An edge is drawn by its ends and by the
ranks of the members that contain them in the innermost scope around both. -/
theorem graph_elements_are_drawn_once {α : Type} [Scalar α] {s : Setting α}
    {title caption : Option String} {m : Graph.Model α} {drawing : Drawing α}
    (h : layout s ⟨title, caption, .graph m⟩ = .ok drawing) :
    ∃ i l, m.interiors s = .ok i ∧ drawing.graph? = some l ∧
      l.nodes.map (·.id) = (m.nodes.map (·.id)).eraseDups ∧
      l.clusters.map (·.id) = (m.clusters.map (·.id)).eraseDups ∧
      l.edges.length = m.edges.length ∧
      ∀ index e g, m.edges[index]? = some e → l.edges[index]? = some g →
        m.Depicts s i l index e g := by
  obtain ⟨-, l, hl, rfl⟩ := of_layout_graph h
  obtain ⟨i, hi, -⟩ := Interiors.ofScopes_eq_ok s.config.graph (m.shapes s)
    (Containment.sound_ofModel m)
  have hshows := Layout.shows_of_ofContainment hi hl
  refine ⟨i, _, hi, rfl, ?_, ?_, ?_, fun index e g he hg => Graph.Model.depicts hi hl _ he hg⟩
  · rw [Layout.translate, List.map_map]
    exact hshows.ids_nodes.trans (Declared.map_firsts Node.id m.nodes)
  · rw [Layout.translate, List.map_map]
    exact hshows.ids_clusters.trans (Declared.map_firsts Cluster.id m.clusters)
  · have hlength := (Layout.of_edgesFrom (Layout.edges_of_ofContainment hi hl)).1
    rw [Layout.translate, List.length_map, hlength]
    simp [Measures.ofModel, Containment.ofModel]

/-- In a cycle of three nodes the edge that closes it leads up two ranks, by one routing point. -/
theorem closing_edge_of_a_cycle :
    let s : Setting Rat := ⟨.standard, fun _ _ => ⟨10, 5⟩⟩
    let m : Graph.Model Rat :=
      { nodes := [{ id := "a" }, { id := "b" }, { id := "c" }]
        edges := [{ source := "a", target := "b" }, { source := "b", target := "c" },
          { source := "c", target := "a" }] }
    ∃ drawing l g, layout s ⟨none, none, .graph m⟩ = .ok drawing ∧ drawing.graph? = some l ∧
      l.edges[2]? = some g ∧ g.kind = .normal ∧ g.points.length = 3 := by
  intro s m
  obtain ⟨l₀, hl₀⟩ := Layout.ofContainment_eq_ok s m (Containment.sound_ofModel m)
  have hvalid : s.config.validate = .ok () := by cbv
  have hok := layout_graph_eq hvalid none none hl₀
  rw [if_neg (by cbv), if_neg (by cbv)] at hok
  obtain ⟨i, l, hi, hl, -, -, hlength, hedges⟩ := graph_elements_are_drawn_once hok
  have hranks : (m.interiors s).toOption.map (fun i =>
      (m.rankIn i { source := "c", target := "a" } "c",
        m.rankIn i { source := "c", target := "a" } "a")) = some (2, 0) := by cbv
  rw [hi] at hranks
  obtain ⟨hsource, htarget⟩ := Prod.mk.inj (Option.some.inj hranks)
  obtain ⟨g, hg⟩ : ∃ g, l.edges[2]? = some g :=
    ⟨_, List.getElem?_eq_getElem (by rw [hlength]; decide)⟩
  have hdepicts := hedges 2 _ g rfl hg
  have hkind : g.kind = .normal := by
    rw [hdepicts.normal_iff, hsource, htarget]
    exact ⟨⟨by simp [Graph.Model.HasNode, m], by simp [Graph.Model.HasNode, m]⟩,
      by decide, by decide⟩
  refine ⟨_, l, g, hok, hl, hg, hkind, ?_⟩
  rw [(hdepicts.normal hkind).1, hsource, htarget]
  rfl

end Drafting.Diagram
