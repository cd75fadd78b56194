import Drafting.Geometry.Basic
import Drafting.Ident

/-!
Graphs: nodes, edges between them, and clusters around them.

Clusters are nested by their `parent`, and a node belongs to the cluster its own `parent` names.
Edges may form cycles.  The order of declaration decides every tie of the layout.
-/

namespace Drafting.Graph

/-- A node, drawn as a box. -/
structure Node (α : Type) where
  /-- The name edges refer to. -/
  id : Ident
  /-- The text shown instead of the name. -/
  label : Option String := none
  /-- The cluster the node belongs to. -/
  parent : Option Ident := none
  /-- The size of the box, when it is not to be taken from the text. -/
  size : Option (Size α) := none
deriving Repr, DecidableEq

/-- The text shown for a node. -/
def Node.displayText {α : Type} (n : Node α) : String := n.label.getD n.id

/-- A group of nodes in a common frame. -/
structure Cluster where
  /-- The name nodes and other clusters refer to. -/
  id : Ident
  /-- The text in the head of the frame. -/
  label : Option String := none
  /-- The cluster around this one. -/
  parent : Option Ident := none
deriving Repr, DecidableEq, Inhabited

/-- The line and the head of an edge. -/
inductive EdgeStyle where
  /-- A solid line with a head. -/
  | directed
  /-- A dashed line with a head. -/
  | dependency
  /-- A solid line without a head. -/
  | undirected
deriving Repr, DecidableEq, Inhabited

/-- The name of an edge style. -/
def EdgeStyle.name : EdgeStyle → String
  | directed => "directed"
  | dependency => "dependency"
  | undirected => "undirected"

/-- The edge styles. -/
def EdgeStyle.all : List EdgeStyle := [directed, dependency, undirected]

/-- An edge between two nodes. -/
structure Edge where
  /-- The node the edge leaves. -/
  source : Ident
  /-- The node the edge enters. -/
  target : Ident
  /-- The text beside the edge. -/
  label : Option String := none
  /-- How the edge is drawn. -/
  style : EdgeStyle := .directed
  /-- The least number of ranks from source to target; none for nodes side by side. -/
  length : Nat := 1
deriving Repr, DecidableEq, Inhabited

/-- Whether an edge returns to the node it leaves. -/
def Edge.isLoop (e : Edge) : Bool := e.source == e.target

/-- A graph. -/
structure Model (α : Type) where
  /-- The nodes in the order of their declaration. -/
  nodes : List (Node α) := []
  /-- The edges in the order of their declaration. -/
  edges : List Edge := []
  /-- The clusters in the order of their declaration. -/
  clusters : List Cluster := []
deriving Repr, DecidableEq, Inhabited

namespace Model

variable {α : Type}

/-- The number of elements that counts against the size limit.  An edge counts once for every rank
it spans, since it takes a routing point on each rank it passes. -/
def elementCount (m : Model α) : Nat :=
  m.nodes.length + m.clusters.length + m.edges.foldr (fun e n => max e.length 1 + n) 0

/-- Declares a further node. -/
def addNode (m : Model α) (n : Node α) : Model α := { m with nodes := m.nodes ++ [n] }

/-- Declares a further edge. -/
def addEdge (m : Model α) (e : Edge) : Model α := { m with edges := m.edges ++ [e] }

/-- Declares a further cluster. -/
def addCluster (m : Model α) (c : Cluster) : Model α := { m with clusters := m.clusters ++ [c] }

end Model

end Drafting.Graph
