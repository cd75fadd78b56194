import Drafting.Graph.Framing
import Drafting.Graph.Geometry

/-!
The layout of a graph.

* `Measures`: the texts of a graph and the sizes taken from them.
* `edgePoints`, `stub`: the lines of edges with both ends and of edges with one.
* `Layout.ofModel`: the whole drawing, in coordinates of its own.
* `Layout.diagnostics`: the faults that were mended.
-/

namespace Drafting.Graph

variable {α : Type} [Scalar α]

/-! ### Texts and sizes -/

/-- Whether a size can be used for a box: its extents are ordinary numbers and not negative. -/
def IsUsable (s : Size α) : Prop :=
  (Scalar.isFinite s.width = true ∧ 0 ≤ s.width) ∧ Scalar.isFinite s.height = true ∧ 0 ≤ s.height

instance instDecidableIsUsable (s : Size α) : Decidable (IsUsable s) := by
  unfold IsUsable; infer_instance

/-- The texts of a graph. -/
structure Measures (α : Type) where
  /-- The texts of the nodes. -/
  nodes : List (MeasuredText α)
  /-- The texts in the heads of the clusters. -/
  clusters : List (Option (MeasuredText α))
  /-- The texts of the edges. -/
  edges : List (Option (MeasuredText α))
deriving Repr, DecidableEq

namespace Measures

/-- The texts of a graph. -/
def ofModel (s : Setting α) (c : Containment α) (m : Model α) : Measures α :=
  let styles := s.config.styles
  { nodes := c.nodes.map fun n => s.measured n.displayText styles.node none
    clusters := c.clusters.map fun k => k.label.map fun text => s.measured text styles.node none
    edges := m.edges.map fun e => e.label.map fun text => s.measured text styles.edge none }

/-- The size of a node in the drawing: the one it asks for, or else that of its
text with room around it. -/
def nodeSize (config : GraphConfig α) (n : Node α) (label : MeasuredText α) : Size α :=
  let usual := label.size.pad (Insets.uniform config.nodePadding)
  match n.size with
  | some size => if IsUsable size then size else usual
  | none => usual

/-- The sizes of all that is to be placed. -/
def shapes (config : GraphConfig α) (c : Containment α) (m : Model α) (t : Measures α) : Shapes α :=
  let d := config.direction
  { nodes := ((c.nodes.zip t.nodes).map fun (n, label) =>
    (nodeSize config n label).orient d).toArray
    heads := (t.clusters.map fun label => (label.map (·.size)).getD Size.zero).toArray
    edges := ((m.edges.zip t.edges).map fun (e, label) =>
      ⟨e.length, label.map fun text => text.size.orient d⟩).toArray }

end Measures

/-! ### Lines -/

/-- The points of an edge between two boxes: from side to side by its way, or the
way itself for a loop. -/
def edgePoints (e : RoutedEdge α) (source target : Bounds α) : List (Point α) :=
  match e.kind with
  | .selfLoop => e.waypoints
  | _ =>
    source.boundaryToward (e.waypoints.head?.getD target.center) ::
      (e.waypoints ++ [target.boundaryToward (e.waypoints.getLast?.getD source.center)])

/-- The points of an edge that lacks an end: a short line at the end it has. -/
def stub (length : α) : Option (Bounds α) → Option (Bounds α) → List (Point α)
  | some source, _ =>
    let start : Point α := ⟨source.center.x, source.maxY⟩
    [start, start.add ⟨0, length⟩]
  | none, some target =>
    let stop : Point α := ⟨target.center.x, target.minY⟩
    [stop.sub ⟨0, length⟩, stop]
  | none, none => []

/-- The line of an edge in the axes of the layout. -/
structure Line (α : Type) where
  /-- How it runs. -/
  kind : EdgeKind
  /-- Its points from source to target. -/
  points : List (Point α)
  /-- Whether it runs against the ranks. -/
  reversed : Bool
  /-- The box of its text. -/
  label : Option (Bounds α)
deriving Repr, DecidableEq

/-- The line of an edge; an edge with both ends needs a way. -/
def Line.ofEnds (config : GraphConfig α) (p : Placed α) (index : Nat) (ends : Ends) :
    Except (Failure α) (Line α) :=
  match ends.source, ends.target with
  | some source, some target =>
    match p.edge? index with
    | some e =>
      .ok ⟨e.kind, edgePoints e (p.node source).bounds (p.node target).bounds, e.reversed, e.label⟩
    | none => .error (.inconsistent (.unrouted index))
  | source, target =>
    let box (i : Nat) : Bounds α := (p.node i).bounds
    .ok ⟨.unresolved, stub (Scalar.half config.rankGap) (source.map box)
      (target.map box), false, none⟩

/-! ### The drawing -/

namespace Layout

/-- The nodes of a drawing. -/
def nodesOf (d : Direction) (c : Containment α) (labels : List (MeasuredText α)) (p : Placed α) :
    List (NodeGeometry α) :=
  (c.nodes.zip labels).mapIdx fun i (n, label) =>
    let place := p.node i
    let bounds := place.bounds.orient d
    { id := n.id
      bounds := bounds
      label := label.placeAround bounds.center
      rank := place.rank
      order := place.order
      cluster := ((c.nodeCluster.getD i none).bind (c.clusters[·]?)).map (·.id) }

/-- The clusters of a drawing. -/
def clustersOf (config : GraphConfig α) (c : Containment α)
    (labels : List (Option (MeasuredText α))) (p : Placed α) : List (ClusterGeometry α) :=
  let padding : Point α := ⟨config.clusterPadding, config.clusterPadding⟩
  (c.clusters.zip labels).mapIdx fun i (k, label) =>
    let bounds := (p.cluster i).orient config.direction
    { id := k.id
      bounds := bounds
      label := label.map fun text => text.placeAt (bounds.minPoint.add padding)
      parent := ((c.clusterParent.getD i none).bind (c.clusters[·]?)).map (·.id)
      depth := Clusters.depth c.clusterParent i }

/-- An edge of a drawing. -/
def edge (d : Direction) (index : Nat) (e : Edge) (label : Option (MeasuredText α)) (l : Line α) :
    EdgeGeometry α :=
  { index := index
    source := e.source
    target := e.target
    style := e.style
    kind := l.kind
    points := l.points.map (·.orient d)
    reversed := l.reversed
    label :=
      match label, l.label with
      | some text, some bounds => some ⟨bounds.orient d, text.lines⟩
      | _, _ => none }

/-- The edges of a drawing, numbered from an index. -/
def edgesFrom (config : GraphConfig α) (p : Placed α) (index : Nat) :
    List (Edge × Option (MeasuredText α) × Ends) → Except (Failure α) (List (EdgeGeometry α))
  | [] => .ok []
  | (e, label, ends) :: rest => do
    let line ← Line.ofEnds config p index ends
    let edges ← edgesFrom config p (index + 1) rest
    .ok (edge config.direction index e label line :: edges)

/-- The drawing of a graph, in coordinates of its own. -/
def ofContainment (s : Setting α) (m : Model α) (c : Containment α) :
    Except (Failure α) (Layout α) :=
  let config := s.config.graph
  let texts := Measures.ofModel s c m
  let shapes := texts.shapes config c m
  let scopes := c.orderedScopes
  match Interiors.ofScopes config shapes c.clusters.length scopes with
  | .error e => .error (.inconsistent e)
  | .ok interiors => do
    let p := Placed.ofInteriors c scopes interiors
    let edges ← edgesFrom config p 0 (m.edges.zip (texts.edges.zip c.ends))
    .ok
      { direction := config.direction
        nodes := nodesOf config.direction c texts.nodes p
        edges := edges
        clusters := clustersOf config c texts.clusters p }

/-- The drawing of a graph, in coordinates of its own; clusters must not be nested too deeply. -/
def ofModel (s : Setting α) (m : Model α) : Except (Failure α) (Layout α) := do
  let c ← Containment.build s.config.limits.maxNestingDepth m
  ofContainment s m c

/-- The faults of a graph: those of its structure, then the sizes that cannot be used. -/
def diagnostics (m : Model α) : List (Diagnostic α) :=
  Containment.diagnostics m ++
    m.distinctNodes.flatMap fun n =>
      (n.size.toList.filter fun size => decide (¬ IsUsable size)).map (.invalidSize n.id)

end Layout

end Drafting.Graph
