import Drafting.Ident
import Drafting.Layout.Row

/-!
Layered graphs: every segment runs from one rank to the next.

An edge that spans several ranks is cut into segments by routing points, one on each rank it passes.

* `Layering`: the nodes with their ranks, the segments, and the chain of nodes along each edge.
* `Layering.ofEdges`: cuts the edges of a ranked graph.
-/

namespace Drafting.Graph

/-- What a node of a layered graph is. -/
inductive LayerKind where
  /-- A member of the graph, by its number. -/
  | member (index : Nat)
  /-- A routing point of an edge, by the number of the edge. -/
  | routing (edge : Nat)
deriving Repr, DecidableEq, Inhabited

/-- A node of a layered graph. -/
structure LayerNode (α : Type) where
  /-- What it is. -/
  kind : LayerKind
  /-- Its rank. -/
  rank : Nat
  /-- How far it reaches along the rank. -/
  extent : Extent α
  /-- How high it is across the rank. -/
  height : α
  /-- The name of a routing point. -/
  id : Option Ident
deriving Repr, DecidableEq

/-- Whether a node is a routing point. -/
def LayerNode.isRouting {α : Type} (n : LayerNode α) : Bool :=
  match n.kind with
  | .routing _ => true
  | .member _ => false

/-- A layered graph. -/
structure Layering (α : Type) where
  /-- The members, then the routing points of each edge. -/
  nodes : Array (LayerNode α)
  /-- The segments, each from a rank to the next. -/
  segments : List (Nat × Nat)
  /-- The nodes along each edge. -/
  chains : List (List Nat)
  /-- The number of ranks. -/
  rankCount : Nat
deriving Repr, DecidableEq

/-- A member with its rank and size. -/
structure MemberShape (α : Type) where
  /-- Its rank. -/
  rank : Nat
  /-- How far it reaches along the rank. -/
  extent : Extent α
  /-- How high it is across the rank. -/
  height : α
deriving Repr, DecidableEq

namespace Layering

variable {α : Type}

/-- The ends of segments that are met in one direction, for each node, in the
order of the segments. -/
def adjacency (count : Nat) (pairs : List (Nat × Nat)) : Array (List Nat) :=
  pairs.reverse.foldl (fun lists (v, w) => lists.modify v (w :: ·)) (Array.replicate count [])

/-- For each node the nodes on the next rank it is connected with. -/
def successors (g : Layering α) : Array (List Nat) := adjacency g.nodes.size g.segments

/-- For each node the nodes on the rank before it is connected with. -/
def predecessors (g : Layering α) : Array (List Nat) :=
  adjacency g.nodes.size (g.segments.map fun (v, w) => (w, v))

/-- The neighbouring pairs of a list. -/
def consecutive : List Nat → List (Nat × Nat)
  | v :: w :: rest => (v, w) :: consecutive (w :: rest)
  | _ => []

/-- An edge that is cut: the nodes along it, and its routing points with their ranks. -/
structure Cut where
  /-- The number of the edge. -/
  edge : Nat
  /-- The nodes along it. -/
  chain : List Nat
  /-- Whether it leaves its rank. -/
  spans : Bool
  /-- The ranks of its routing points. -/
  ranks : List Nat
deriving Repr, DecidableEq

/-- Cuts the edges of a ranked graph.  Edges are numbered from an index, and routing points from the
first number that is free. -/
def cutFrom (rank : Nat → Nat) (edge free : Nat) : List (Nat × Nat) → List Cut
  | [] => []
  | (source, target) :: rest =>
    let count := rank target - rank source - 1
    { edge := edge
      chain := source :: (List.range' free count ++ [target])
      spans := decide (rank source < rank target)
      ranks := List.range' (rank source + 1) count } ::
      cutFrom rank (edge + 1) (free + count) rest

variable [Scalar α]

/-- The routing points of an edge; `named` of them have names already. -/
def routingPoints (width : α) (named : Nat) (cut : Cut) : List (LayerNode α) :=
  cut.ranks.mapIdx fun i rank =>
    { kind := .routing cut.edge
      rank := rank
      extent := Extent.symmetric width
      height := 0
      id := some (Ident.anonymous (named + i)) }

/-- The routing points of all edges. -/
def allRoutingPoints (width : α) (named : Nat) : List Cut → List (LayerNode α)
  | [] => []
  | cut :: rest =>
    routingPoints width named cut ++ allRoutingPoints width (named + cut.ranks.length) rest

/-- The layered graph of members with ranks and edges along which ranks do not fall.  Routing points
are `width` wide; `named` of them have names already. -/
def ofEdges (width : α) (named : Nat) (members : List (MemberShape α)) (edges : List (Nat × Nat)) :
    Layering α :=
  let shapes := members.toArray
  let rank (v : Nat) : Nat := (shapes[v]?.map (·.rank)).getD 0
  let cuts := cutFrom rank 0 members.length edges
  let own := members.mapIdx fun i shape =>
    { kind := .member i, rank := shape.rank, extent := shape.extent, height := shape.height
      id := none }
  { nodes := (own ++ allRoutingPoints width named cuts).toArray
    segments := cuts.flatMap fun cut => if cut.spans then consecutive cut.chain else []
    chains := cuts.map (·.chain)
    rankCount := members.foldl (fun n shape => max n (shape.rank + 1)) 0 }

omit [Scalar α] in
/-- The number of routing points. -/
def routingCount (g : Layering α) : Nat := g.nodes.toList.countP (·.isRouting)

end Layering

end Drafting.Graph
