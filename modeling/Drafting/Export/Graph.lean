import Drafting.Export.Geometry
import Drafting.Graph.Geometry

/-!
The geometry of a graph as a document.
-/

namespace Drafting.Export

open Drafting.Graph

/-- A node. -/
def node (n : NodeGeometry Float32) : Document :=
  .table
    [("id", .str n.id),
      ("bounds", bounds n.bounds),
      ("label", textBox n.label),
      ("rank", .ofNat n.rank),
      ("order", .ofNat n.order),
      ("cluster", optional .str n.cluster)]

/-- An edge. -/
def edge (e : EdgeGeometry Float32) : Document :=
  .table
    [("index", .ofNat e.index),
      ("source", .str e.source),
      ("target", .str e.target),
      ("style", .str e.style.name),
      ("kind", .str e.kind.name),
      ("points", list point e.points),
      ("reversed", .bool e.reversed),
      ("label", optional textBox e.label)]

/-- A cluster. -/
def cluster (c : ClusterGeometry Float32) : Document :=
  .table
    [("id", .str c.id),
      ("bounds", bounds c.bounds),
      ("label", optional textBox c.label),
      ("parent", optional .str c.parent),
      ("depth", .ofNat c.depth)]

/-- The geometry of a graph. -/
def graph (l : Graph.Layout Float32) : Document :=
  .table
    [("kind", .str "graph"),
      ("direction", .str l.direction.name),
      ("nodes", list node l.nodes),
      ("edges", list edge l.edges),
      ("clusters", list cluster l.clusters)]

end Drafting.Export
