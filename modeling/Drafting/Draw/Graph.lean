import Drafting.Draw.Stroke
import Drafting.Graph.Geometry

/-!
The drawing commands of a graph: clusters from the outermost inward, nodes, then edges.
-/

namespace Drafting.Draw

variable {α : Type} [Scalar α]

/-- The line of an edge. -/
def edgeLine : Graph.EdgeStyle → Line
  | .directed => ⟨.filled, false⟩
  | .dependency => ⟨.hollow, true⟩
  | .undirected => .solid

/-- The commands of a cluster. -/
def cluster (style : TextStyle) (c : Graph.ClusterGeometry α) : Layered α :=
  box .background .cluster c.bounds ++ label? .label style c.label

/-- The commands of a node. -/
def node (style : TextStyle) (n : Graph.NodeGeometry α) : Layered α :=
  box .content .node n.bounds ++ label .label style n.label

/-- The commands of an edge. -/
def edge (style : TextStyle) (e : Graph.EdgeGeometry α) : Layered α :=
  arrow .edge (edgeLine e.style) e.points ++ label? .label style e.label

/-- The commands of a graph. -/
def graph (config : Config α) (l : Graph.Layout α) : Layered α :=
  (l.clusters.mergeSort fun a b => decide (a.depth ≤ b.depth)).flatMap
      (cluster config.styles.node) ++
    l.nodes.flatMap (node config.styles.node) ++ l.edges.flatMap (edge config.styles.edge)

end Drafting.Draw
