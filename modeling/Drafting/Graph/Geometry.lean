import Drafting.Geometry.Orient
import Drafting.Graph.Component
import Drafting.Text.Box

/-!
The finished geometry of a graph.

* `Layout`: every distinct node and cluster and every edge with its place.
* `Layout.boxes`, `Layout.contentBounds`: what is drawn, and the smallest box around it.
* `Layout.translate`: moves the whole drawing.
-/

namespace Drafting.Graph

/-- A node with its place. -/
structure NodeGeometry (α : Type) where
  /-- The name of the node. -/
  id : Ident
  /-- Its box. -/
  bounds : Bounds α
  /-- The text in the box. -/
  label : TextBox α
  /-- Its rank in its scope. -/
  rank : Nat
  /-- Its position among those of its rank. -/
  order : Nat
  /-- The innermost cluster around it. -/
  cluster : Option Ident
deriving Repr, BEq, DecidableEq

/-- An edge with its way. -/
structure EdgeGeometry (α : Type) where
  /-- The number of the edge. -/
  index : Nat
  /-- The node it leaves. -/
  source : Ident
  /-- The node it enters. -/
  target : Ident
  /-- Its line and head. -/
  style : EdgeStyle
  /-- How it runs. -/
  kind : EdgeKind
  /-- Its points from source to target. -/
  points : List (Point α)
  /-- Whether it runs against the ranks. -/
  reversed : Bool
  /-- The text beside it. -/
  label : Option (TextBox α)
deriving Repr, BEq, DecidableEq

/-- The frame of a cluster. -/
structure ClusterGeometry (α : Type) where
  /-- The name of the cluster. -/
  id : Ident
  /-- The frame. -/
  bounds : Bounds α
  /-- The text in the head of the frame. -/
  label : Option (TextBox α)
  /-- The cluster around it. -/
  parent : Option Ident
  /-- The number of clusters around it, itself included. -/
  depth : Nat
deriving Repr, BEq, DecidableEq

/-- The geometry of a graph. -/
structure Layout (α : Type) where
  /-- The direction in which ranks follow each other. -/
  direction : Direction
  /-- The distinct nodes in the order of declaration. -/
  nodes : List (NodeGeometry α)
  /-- The edges in the order of declaration. -/
  edges : List (EdgeGeometry α)
  /-- The distinct clusters in the order of declaration. -/
  clusters : List (ClusterGeometry α)
deriving Repr, BEq, DecidableEq

namespace Layout

variable {α : Type}

/-- The node of a name. -/
def node? (l : Layout α) (id : Ident) : Option (NodeGeometry α) := l.nodes.find? (·.id == id)

/-- The cluster of a name. -/
def cluster? (l : Layout α) (id : Ident) : Option (ClusterGeometry α) :=
  l.clusters.find? (·.id == id)

/-- The box of the cluster of a name, or else of the node of that name. -/
def box? (l : Layout α) (id : Ident) : Option (Bounds α) :=
  ((l.cluster? id).map (·.bounds)).or ((l.node? id).map (·.bounds))

end Layout

variable {α : Type} [Scalar α]

/-- Moves a node. -/
def NodeGeometry.translate (n : NodeGeometry α) (v : Point α) : NodeGeometry α :=
  { n with bounds := n.bounds.translate v, label := n.label.translate v }

/-- Moves an edge. -/
def EdgeGeometry.translate (e : EdgeGeometry α) (v : Point α) : EdgeGeometry α :=
  { e with points := e.points.map (·.add v), label := e.label.map (·.translate v) }

/-- Moves a cluster. -/
def ClusterGeometry.translate (c : ClusterGeometry α) (v : Point α) : ClusterGeometry α :=
  { c with bounds := c.bounds.translate v, label := c.label.map (·.translate v) }

namespace Layout

/-- Moves a drawing. -/
def translate (l : Layout α) (v : Point α) : Layout α :=
  { l with
    nodes := l.nodes.map (·.translate v)
    edges := l.edges.map (·.translate v)
    clusters := l.clusters.map (·.translate v) }

/-- The boxes that make up the content of a drawing. -/
def boxes (l : Layout α) : List (Bounds α) :=
  l.nodes.map (·.bounds) ++ l.clusters.map (·.bounds) ++
    l.clusters.filterMap (fun c => c.label.map (·.bounds)) ++
    l.edges.filterMap (fun e => e.label.map (·.bounds)) ++
    (l.edges.flatMap (·.points)).map (Bounds.around · Size.zero)

/-- The smallest box around the content of a drawing. -/
def contentBounds (l : Layout α) : Bounds α :=
  match l.boxes with
  | [] => Bounds.zero
  | b :: rest => rest.foldl Bounds.merge b

end Layout

end Drafting.Graph
