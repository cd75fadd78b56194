import Drafting.Geometry.Basic
import Drafting.Graph.Ordering

/-!
Coordinates of the nodes of a layered graph.

Along the ranks, nodes are first packed to the left.  Then each is drawn toward the mean of its
neighbours on the rank before it, and on the rank after it, in turn.  Within a rank, routing
points are moved first and then nodes with many neighbours; a node moved earlier stays where it
is, and others are pushed aside but never past each other.  Across the ranks, each rank is as
high as its highest node.

* `Cell.shiftTo`: moves one node of a rank as close to a wish as those that stay permit.
* `Placement.pack`, `Placement.relax`: the coordinates along the ranks.
* `Placement.ofLayers`: the centers of all nodes.
-/

namespace Drafting.Graph

/-! ### Moving a node within its rank -/

/-- A node of a rank while the rank is being adjusted. -/
structure Cell (α : Type) where
  /-- Where its center is. -/
  x : α
  /-- How far it reaches. -/
  extent : Extent α
  /-- Whether it stays where it is. -/
  fixed : Bool
deriving Repr, DecidableEq

variable {α : Type} [Scalar α]

/-- The least distance between the centers of two neighbours. -/
def separation (spacing : α) (left right : Extent α) : α := left.after + spacing + right.before

namespace Cell

/-- How far left a node may go: the nearest node on its left that stays, and the room of those
between.  The list holds the nodes on the left, the nearest first. -/
def leftLimit (spacing : α) (extent : Extent α) (needed : α) : List (Cell α) → Option α
  | [] => none
  | c :: rest =>
    let needed := needed + separation spacing c.extent extent
    if c.fixed then some (c.x + needed) else leftLimit spacing c.extent needed rest

/-- How far right a node may go, given the nodes on its right. -/
def rightLimit (spacing : α) (extent : Extent α) (needed : α) : List (Cell α) → Option α
  | [] => none
  | c :: rest =>
    let needed := needed + separation spacing extent c.extent
    if c.fixed then some (c.x - needed) else rightLimit spacing c.extent needed rest

/-- Pushes nodes to the left of a node that has moved, the nearest first, until there is room. -/
def pushLeft (spacing : α) (x : α) (extent : Extent α) : List (Cell α) → List (Cell α)
  | [] => []
  | c :: rest =>
    let bound := x - separation spacing c.extent extent
    if c.x ≤ bound then c :: rest
    else { c with x := bound } :: pushLeft spacing bound c.extent rest

/-- Pushes nodes to the right of a node that has moved, the nearest first, until there is room. -/
def pushRight (spacing : α) (x : α) (extent : Extent α) : List (Cell α) → List (Cell α)
  | [] => []
  | c :: rest =>
    let bound := x + separation spacing extent c.extent
    if bound ≤ c.x then c :: rest
    else { c with x := bound } :: pushRight spacing bound c.extent rest

/-- Moves a node toward a wish, as far as the nodes that stay permit; the others make room.  `left`
holds the nodes on its left, the nearest first. -/
def moveTo (spacing : α) (left : List (Cell α)) (c : Cell α) (right : List (Cell α)) (wish : α) :
    List (Cell α) :=
  if wish < c.x then
    let bounded := ((leftLimit spacing c.extent 0 left).map (max wish)).getD wish
    let x := min bounded c.x
    (pushLeft spacing x c.extent left).reverse ++ { c with x := x } :: right
  else if c.x < wish then
    let bounded := ((rightLimit spacing c.extent 0 right).map (min wish)).getD wish
    let x := max bounded c.x
    left.reverse ++ { c with x := x } :: pushRight spacing x c.extent right
  else left.reverse ++ c :: right

/-- Moves the node at a position of a rank toward a wish. -/
def shiftTo (spacing : α) (cells : List (Cell α)) (i : Nat) (wish : α) : List (Cell α) :=
  match cells.drop i with
  | [] => cells
  | c :: right => moveTo spacing (cells.take i).reverse c right wish

omit [Scalar α] in
/-- Lets the node at a position stay where it is. -/
def fix (cells : List (Cell α)) (i : Nat) : List (Cell α) :=
  cells.modify i fun c => { c with fixed := true }

end Cell

/-! ### Along the ranks -/

/-- The coordinates of the nodes of a layered graph. -/
structure Placement (α : Type) where
  /-- The centers of the nodes. -/
  centers : Array (Point α)
  /-- Where the ranks begin. -/
  rankTops : Array α
  /-- How high the ranks are. -/
  rankHeights : Array α
deriving Repr, DecidableEq

namespace Placement

/-- How far a node reaches. -/
def extentOf (g : Layering α) (v : Nat) : Extent α := (g.nodes[v]?.map (·.extent)).getD ⟨0, 0⟩

/-- Packs the nodes of a rank from left to right; `previous` is the node packed
last with its center. -/
def packFrom (g : Layering α) (spacing : α) (previous : Option (α × Extent α)) (xs : Array α) :
    List Nat → Array α
  | [] => xs
  | v :: rest =>
    let extent := extentOf g v
    let x :=
      match previous with
      | none => extent.before
      | some (x, before) => x + separation spacing before extent
    packFrom g spacing (some (x, extent)) (xs.setIfInBounds v x) rest

/-- Packs every rank to the left. -/
def pack (g : Layering α) (layers : Layers) (spacing : α) : Array α :=
  layers.foldl (fun xs layer => packFrom g spacing none xs layer) (Array.replicate g.nodes.size 0)

/-- What the nodes of a rank are ordered by when they are moved. -/
structure Urgency where
  /-- Whether it is a member and not a routing point. -/
  isMember : Bool
  /-- The number of its neighbours. -/
  degree : Nat
  /-- Its position in the rank. -/
  position : Nat
deriving Repr, DecidableEq

/-- Routing points come first, then nodes with more neighbours, then those further left. -/
def Urgency.le (u v : Urgency) : Bool :=
  if u.isMember != v.isMember then v.isMember
  else if u.degree ≠ v.degree then decide (v.degree < u.degree)
  else decide (u.position ≤ v.position)

/-- The positions of a rank in the order in which its nodes are moved. -/
def priority (g : Layering α) (degree : Nat → Nat) (layer : List Nat) : List Nat :=
  let urgencies := layer.mapIdx fun i v =>
    { isMember := !((g.nodes[v]?.map (·.isRouting)).getD false), degree := degree v, position := i }
  (urgencies.mergeSort Urgency.le).map (·.position)

/-- Moves the node at a position toward the mean of its neighbours, and lets it stay there. -/
def settleNode (spacing : α) (neighbours : Array (List Nat)) (xs : Array α) (layer : Array Nat)
    (cells : List (Cell α)) (i : Nat) : List (Cell α) :=
  let adjacent := neighbours.getD (layer.getD i 0) []
  let moved :=
    if adjacent.isEmpty then cells
    else
      let sum := Scalar.sum (adjacent.map (xs.getD · 0))
      Cell.shiftTo spacing cells i (sum / Scalar.ofNat adjacent.length)
  Cell.fix moved i

/-- Enters the coordinates of the nodes of a rank. -/
def enterCells (xs : Array α) (layer : List Nat) (cells : List (Cell α)) : Array α :=
  (layer.zip cells).foldl (fun xs (v, c) => xs.setIfInBounds v c.x) xs

/-- Adjusts one rank to its neighbours. -/
def relaxLayer (g : Layering α) (spacing : α) (degree : Nat → Nat) (neighbours : Array (List Nat))
    (xs : Array α) (layer : List Nat) : Array α :=
  let cells := layer.map fun v => { x := xs.getD v 0, extent := extentOf g v, fixed := false }
  let settled := (priority g degree layer).foldl
    (settleNode spacing neighbours xs layer.toArray) cells
  enterCells xs layer settled

/-- Adjusts all ranks a number of times, in turn downward to the rank before and
upward to the rank after. -/
def relax (g : Layering α) (layers : Layers) (spacing : α) (degree : Nat → Nat)
    (predecessors successors : Array (List Nat)) : Nat → Bool → Array α → Array α
  | 0, _, xs => xs
  | passes + 1, down, xs =>
    let adjusted :=
      if down then (layers.drop 1).foldl (relaxLayer g spacing degree predecessors) xs
      else (layers.reverse.drop 1).foldl (relaxLayer g spacing degree successors) xs
    relax g layers spacing degree predecessors successors passes (!down) adjusted

/-- The least of the left ends of all nodes, if there are any. -/
def leftmost? (g : Layering α) (xs : Array α) : Option α :=
  ((g.nodes.toList.zip xs.toList).map fun (n, x) => x - n.extent.before).foldl
    (fun least x => some ((least.map (min · x)).getD x)) none

/-- Moves all nodes so that the leftmost one begins at zero. -/
def alignLeft (g : Layering α) (xs : Array α) : Array α :=
  match leftmost? g xs with
  | none => xs
  | some left => if Scalar.isFinite left then xs.map (· - left) else xs

/-- The coordinates of all nodes along their ranks. -/
def along (g : Layering α) (layers : Layers) (spacing : α) (passes : Nat) : Array α :=
  let successors := g.successors
  let predecessors := g.predecessors
  let degree (v : Nat) : Nat := (successors.getD v []).length + (predecessors.getD v []).length
  alignLeft g
    (relax g layers spacing degree predecessors successors passes true (pack g layers spacing))

/-! ### Across the ranks -/

/-- The height of each rank: that of its highest node. -/
def heights (g : Layering α) (layers : Layers) : List α :=
  layers.map fun layer =>
    Scalar.maximum 0 (layer.map fun v => (g.nodes[v]?.map (·.height)).getD 0)

/-- The gap below a rank; the last one counts when there are too few. -/
def gapAfter (gaps : Array α) (rank : Nat) : α := (gaps[rank]?.or gaps.back?).getD 0

/-- Where ranks begin, numbered from a rank and stacked from a height on. -/
def topsFrom (gaps : Array α) (rank : Nat) (cursor : α) : List α → List α
  | [] => []
  | height :: rest =>
    cursor :: topsFrom gaps (rank + 1) (cursor + (height + gapAfter gaps rank)) rest

/-- The centers of all nodes. -/
def ofLayers (g : Layering α) (layers : Layers) (spacing : α) (passes : Nat) (gaps : Array α) :
    Placement α :=
  let xs := along g layers spacing passes
  let rankHeights := (heights g layers).toArray
  let rankTops := (topsFrom gaps 0 0 rankHeights.toList).toArray
  let center (n : LayerNode α) (x : α) : Point α :=
    ⟨x, rankTops.getD n.rank 0 + Scalar.half (rankHeights.getD n.rank 0)⟩
  { centers := ((g.nodes.toList.zip xs.toList).map fun (n, x) => center n x).toArray
    rankTops := rankTops
    rankHeights := rankHeights }

end Placement

end Drafting.Graph
