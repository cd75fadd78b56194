import Drafting.Config.Basic
import Drafting.Graph.Layering
import Drafting.Graph.Marks

/-!
The order of nodes within their ranks.

The first order comes from a depth-first walk, so that connected nodes are close to each other.
Sweeps then sort each rank by the positions of the neighbours on the rank before it, or after it,
and neighbours are exchanged as long as that removes crossings.  The order with the fewest crossings
seen is kept; ties are settled by the numbers of nodes.

* `Layers.initial`: the order of the depth-first walk.
* `Layers.crossings`: the number of crossings, counted with a tree of sums.
* `Layers.sweep`: sorts every rank by its neighbours.
* `Layers.transpose`: exchanges neighbours while that removes crossings.
* `Layers.minimize`: the order that is kept.
-/

namespace Drafting.Graph

/-- The nodes of each rank from left to right. -/
abbrev Layers := List (List Nat)

namespace Layers

/-! ### The first order -/

/-- Walks depth-first from a stack of nodes; the nodes are returned in reverse order of visit,
before those visited earlier. -/
def walk (successors : Array (List Nat)) (marks : Array Bool) (visited : List Nat) :
    List Nat → Array Bool × List Nat
  | [] => (marks, visited)
  | v :: stack =>
    if _h : marks[v]? = some false then
      walk successors (marks.setIfInBounds v true) (v :: visited) (successors.getD v [] ++ stack)
    else walk successors marks visited stack
termination_by stack => (marks.count false, stack.length)
decreasing_by
  · apply Prod.Lex.left; exact Marks.count_mark_lt (by assumption)
  · apply Prod.Lex.right; simp

variable {α : Type}

/-- The rank of a node. -/
def rankOf (g : Layering α) (v : Nat) : Nat := (g.nodes[v]?.map (·.rank)).getD 0

/-- The nodes by rank, those of a rank by number. -/
def starts (g : Layering α) : List Nat :=
  (List.range g.nodes.size).mergeSort fun v w =>
    decide (rankOf g v < rankOf g w) || (rankOf g v == rankOf g w && decide (v ≤ w))

/-- The nodes in the order of a depth-first walk. -/
def walkOrder (g : Layering α) : List Nat :=
  (walk g.successors (Array.replicate g.nodes.size false) [] (starts g)).2.reverse

/-- Nodes sorted into their ranks, in the given order. -/
def ofOrder (g : Layering α) (order : List Nat) : Layers :=
  (order.reverse.foldl (fun layers v => layers.modify (rankOf g v) (v :: ·))
    (Array.replicate g.rankCount [])).toList

/-- The order of the depth-first walk. -/
def initial (g : Layering α) : Layers := ofOrder g (walkOrder g)

/-! ### Crossings -/

/-- Enters the positions of the nodes of a rank, counted from an index. -/
def enterPositions (positions : Array Nat) (index : Nat) : List Nat → Array Nat
  | [] => positions
  | v :: rest => enterPositions (positions.setIfInBounds v index) (index + 1) rest

/-- The position of each node in its rank. -/
def positions (count : Nat) (layers : Layers) : Array Nat :=
  layers.foldl (fun ps layer => enterPositions ps 0 layer) (Array.replicate count 0)

/-- Enters an end into the tree of sums, from a leaf to the root.  At each left child the ends to
its right have been entered before and cross the new one. -/
def climb (tree : Array Nat) (count index : Nat) : Array Nat × Nat :=
  if index = 0 then (tree, count)
  else
    let count := if index % 2 = 1 then count + tree.getD (index + 1) 0 else count
    let parent := (index - 1) / 2
    climb (tree.modify parent (· + 1)) count parent
termination_by index
decreasing_by omega

/-- Enters an end at a position and adds the crossings with the ends entered before. -/
def enter (leaves : Nat) (state : Array Nat × Nat) (position : Nat) : Array Nat × Nat :=
  let index := position + (leaves - 1)
  climb (state.1.modify index (· + 1)) state.2 index

/-- The number of leaves of the tree over a rank: the least power of two that is
not less than its size. -/
def leavesFor (size : Nat) : Nat := if size ≤ 1 then 1 else 1 <<< ((size - 1).log2 + 1)

/-- The ends of the segments from a rank, node by node, those of a node from left to right. -/
def endsOf (successors : Array (List Nat)) (positions : Array Nat) (north : List Nat) : List Nat :=
  north.flatMap fun v =>
    ((successors.getD v []).map (positions.getD · 0)).mergeSort fun i j => decide (i ≤ j)

/-- The number of crossings between two ranks. -/
def layerCrossings (successors : Array (List Nat)) (positions : Array Nat) (north : List Nat)
    (southSize : Nat) : Nat :=
  if southSize = 0 then 0
  else
    let leaves := leavesFor southSize
    ((endsOf successors positions north).foldl (enter leaves)
      (Array.replicate (2 * leaves - 1) 0, 0)).2

/-- The crossings between neighbouring ranks of a list. -/
def crossingsBetween (successors : Array (List Nat)) (positions : Array Nat) : Layers → Nat
  | north :: south :: rest =>
    layerCrossings successors positions north south.length +
      crossingsBetween successors positions (south :: rest)
  | _ => 0

/-- The number of crossings. -/
def crossings (successors : Array (List Nat)) (layers : Layers) : Nat :=
  crossingsBetween successors (positions successors.size layers) layers

/-! ### Sweeps -/

variable [Scalar α]

/-- The weighted median of sorted positions, drawn to the side where they are denser. -/
def weightedMedian (sorted : List α) : Option α :=
  let count := sorted.length
  let middle := count / 2
  let nth (i : Nat) : α := sorted.getD i 0
  if count = 0 then none
  else if count % 2 = 1 then some (nth middle)
  else if count = 2 then some (Scalar.half (nth 0 + nth 1))
  else
    let left := nth (middle - 1) - nth 0
    let right := nth (count - 1) - nth middle
    if left + right == 0 then some (Scalar.half (nth (middle - 1) + nth middle))
    else some ((nth (middle - 1) * right + nth middle * left) / (left + right))

/-- The mean of positions. -/
def barycenter (positions : List α) : Option α :=
  if positions.isEmpty then none else some (Scalar.sum positions / Scalar.ofNat positions.length)

/-- What a node is sorted by: its neighbours on the reference rank, or its own
position without any. -/
def sortKey (heuristic : Heuristic) (reference : List Nat) (neighbours : List Nat)
    (own : Nat) : α :=
  let adjacent : List α := neighbours.filterMap fun n =>
    (reference.findIdx? (· == n)).map Scalar.ofNat
  let sorted := adjacent.mergeSort fun x y => (compare x y).isLE
  let key :=
    match heuristic with
    | .median => weightedMedian sorted
    | .barycenter => barycenter sorted
  key.getD (Scalar.ofNat own)

/-- Whether a node with its key comes before another, ties settled by number. -/
def keyLe (x y : α × Nat) : Bool :=
  match compare x.1 y.1 with
  | .lt => true
  | .gt => false
  | .eq => decide (x.2 ≤ y.2)

variable (α) in
/-- Sorts a rank by its neighbours on a reference rank. -/
def sortLayer (heuristic : Heuristic) (neighbours : Array (List Nat)) (reference layer : List Nat) :
    List Nat :=
  let keyed : List (α × Nat) := layer.mapIdx fun position v =>
    (sortKey heuristic reference (neighbours.getD v []) position, v)
  (keyed.mergeSort keyLe).map (·.2)

variable (α) in
/-- Sorts ranks one after the other, each by the one before it. -/
def sweepFrom (heuristic : Heuristic) (neighbours : Array (List Nat)) (reference : List Nat) :
    Layers → Layers
  | [] => []
  | layer :: rest =>
    let sorted := sortLayer α heuristic neighbours reference layer
    sorted :: sweepFrom heuristic neighbours sorted rest

variable (α) in
/-- Sorts every rank but the first by the one before it. -/
def sweepDown (heuristic : Heuristic) (neighbours : Array (List Nat)) : Layers → Layers
  | [] => []
  | layer :: rest => layer :: sweepFrom α heuristic neighbours layer rest

variable (α) in
/-- One sweep, down or up. -/
def sweep (heuristic : Heuristic) (predecessors successors : Array (List Nat)) (down : Bool)
    (layers : Layers) : Layers :=
  if down then sweepDown α heuristic predecessors layers
  else (sweepDown α heuristic successors layers.reverse).reverse

/-! ### Exchanging neighbours -/

/-- The crossings between the segments of two neighbours, given the positions of their other
ends. -/
def pairCrossings (positions : Array Nat) (left right : List Nat) : Nat :=
  left.foldr
    (fun l n => (right.countP fun r => decide (positions.getD r 0 < positions.getD l 0)) + n) 0

/-- The crossings among all segments of two neighbours. -/
def neighbourCrossings (predecessors successors : Array (List Nat)) (positions : Array Nat)
    (v w : Nat) : Nat :=
  pairCrossings positions (predecessors.getD v []) (predecessors.getD w []) +
    pairCrossings positions (successors.getD v []) (successors.getD w [])

/-- Goes through a rank and exchanges neighbours where that is better; tells whether any were. -/
def bubble (better : Nat → Nat → Bool) (v : Nat) : List Nat → List Nat × Bool
  | [] => ([v], false)
  | w :: rest =>
    if better v w then (w :: (bubble better v rest).1, true)
    else
      let (tail, changed) := bubble better w rest
      (v :: tail, changed)

/-- Improves the first rank in which an exchange removes crossings, if there is one. -/
def exchange? (better : Nat → Nat → Bool) : Layers → Option Layers
  | [] => none
  | [] :: rest => (exchange? better rest).map ([] :: ·)
  | (v :: layer) :: rest =>
    let (improved, changed) := bubble better v layer
    if changed then some (improved :: rest)
    else (exchange? better rest).map ((v :: layer) :: ·)

/-- Whether exchanging two neighbours removes crossings, given the positions of the others. -/
def isBetter (predecessors successors : Array (List Nat)) (positions : Array Nat)
    (v w : Nat) : Bool :=
  let cost := neighbourCrossings predecessors successors positions
  decide (cost w v < cost v w)

/-- One round: improves the first rank that can be improved, with the positions
from before the round. -/
def exchangeRound (predecessors successors : Array (List Nat)) (layers : Layers) : Option Layers :=
  exchange? (isBetter predecessors successors (positions successors.size layers)) layers

/-- Improves one rank after the other, a number of times at most. -/
def transposeFor (predecessors successors : Array (List Nat)) : Nat → Layers → Layers
  | 0, layers => layers
  | rounds + 1, layers =>
    match exchangeRound predecessors successors layers with
    | none => layers
    | some improved => transposeFor predecessors successors rounds improved

/-- Exchanges neighbours while that removes crossings.  Each round removes at least one, so there
are no more rounds than crossings. -/
def transpose (predecessors successors : Array (List Nat)) (layers : Layers) : Layers :=
  transposeFor predecessors successors (crossings successors layers) layers

/-! ### The order that is kept -/

variable (α) in
/-- Sweeps in turn down and up and keeps the best order seen; stops when no crossings are left. -/
def improve (heuristic : Heuristic) (predecessors successors : Array (List Nat)) :
    (passes : Nat) → (down : Bool) → (layers best : Layers) → (fewest : Nat) → Layers
  | 0, _, _, best, _ => best
  | passes + 1, down, layers, best, fewest =>
    if fewest = 0 then best
    else
      let swept := sweep α heuristic predecessors successors down layers
      let layers := transpose predecessors successors swept
      let count := crossings successors layers
      if count < fewest then
        improve heuristic predecessors successors passes (!down) layers layers count
      else improve heuristic predecessors successors passes (!down) layers best fewest

/-- The order of nodes within their ranks. -/
def minimize (g : Layering α) (passes : Nat) (heuristic : Heuristic) : Layers :=
  let successors := g.successors
  let first := initial g
  improve α heuristic g.predecessors successors passes true first first
    (crossings successors first)

end Layers

end Drafting.Graph
