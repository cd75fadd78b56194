import Drafting.Geometry.Bounds
import Drafting.Graph.Containment
import Drafting.Graph.Placement
import Drafting.Graph.Ranking

/-!
The layout of one connected part of a scope.

* `Component.ofScope`: the connected parts.
* `Routing`: the ways of edges between placed members.
* `Component.layout`: the members placed in ranks, with the ways of their edges.
-/

namespace Drafting.Graph

/-! ### Connected parts -/

/-- A connected part of a scope. -/
structure Component where
  /-- The positions of its members in the scope, ascending. -/
  members : List Nat
  /-- Its edges. -/
  edges : List ScopeEdge
deriving Repr, DecidableEq, Inhabited

namespace Component

/-- Gives the parts of two members the same label, the smaller one. -/
def join (labels : Array Nat) (v w : Nat) : Array Nat :=
  let a := labels.getD v v
  let b := labels.getD w w
  labels.map fun label => if label = max a b then min a b else label

/-- Labels every member with the first member of its part. -/
def labels (count : Nat) (edges : List ScopeEdge) : Array Nat :=
  edges.foldl (fun labels e => join labels e.source e.target) (Array.range count)

/-- The connected parts of a scope by their first members. -/
def ofScope (s : Scope) : List Component :=
  let count := s.members.length
  let labels := labels count s.edges
  let label (v : Nat) : Nat := labels.getD v v
  let vertices := List.range count
  (vertices.filter fun v => label v == v).map fun root =>
    { members := vertices.filter fun v => label v == root
      edges := s.edges.filter fun e => label e.source == root }

/-- The position of a member of the scope in the part. -/
def localIndex (c : Component) (member : Nat) : Nat := c.members.idxOf member

/-- The edges from one member to another. -/
def links (c : Component) : List ScopeEdge := c.edges.filter fun e => e.source != e.target

/-- The edges from a member to itself. -/
def loops (c : Component) : List ScopeEdge := c.edges.filter fun e => e.source == e.target

end Component

/-! ### Placed elements -/

/-- How an edge is drawn. -/
inductive EdgeKind where
  /-- Between different ranks. -/
  | normal
  /-- Within a rank. -/
  | flat
  /-- From a node back to itself. -/
  | selfLoop
  /-- With an end that does not exist. -/
  | unresolved
deriving Repr, DecidableEq, Inhabited

/-- The name of a kind of edge. -/
def EdgeKind.name : EdgeKind → String
  | normal => "normal"
  | flat => "flat"
  | selfLoop => "self_loop"
  | unresolved => "unresolved"

/-- What the layout of a scope needs of an edge. -/
structure EdgeShape (α : Type) where
  /-- The least number of ranks it spans. -/
  length : Nat
  /-- The size of its text. -/
  label : Option (Size α)
deriving Repr, DecidableEq

/-- A member with its place. -/
structure PlacedMember (α : Type) where
  /-- Its box. -/
  bounds : Bounds α
  /-- Its rank. -/
  rank : Nat
  /-- Its position among the members of its rank. -/
  order : Nat
deriving Repr, DecidableEq

/-- An edge with its way.  The ends are left out, except for a loop, which is given whole. -/
structure RoutedEdge (α : Type) where
  /-- The number of the edge. -/
  edge : Nat
  /-- How it is drawn. -/
  kind : EdgeKind
  /-- Whether it runs against the ranks. -/
  reversed : Bool
  /-- The points it passes, from its source to its target. -/
  waypoints : List (Point α)
  /-- The box of its text. -/
  label : Option (Bounds α)
deriving Repr, DecidableEq

/-- A connected part with its box. -/
structure ComponentLayout (α : Type) where
  /-- The smallest box around it. -/
  bounds : Bounds α
  /-- Its members. -/
  members : List (PlacedMember α)
  /-- Its edges. -/
  edges : List (RoutedEdge α)
deriving Repr, DecidableEq

variable {α : Type} [Scalar α]

/-- Moves a member. -/
def PlacedMember.translate (m : PlacedMember α) (v : Point α) : PlacedMember α :=
  { m with bounds := m.bounds.translate v }

/-- Moves an edge. -/
def RoutedEdge.translate (e : RoutedEdge α) (v : Point α) : RoutedEdge α :=
  { e with waypoints := e.waypoints.map (·.add v), label := e.label.map (·.translate v) }

/-! ### The ways of edges -/

/-- The gap between ranks that holds the text of an edge: the middle one of those it crosses. -/
def labelGap? (g : Layering α) (chain : List Nat) : Option Nat :=
  match chain.head?, chain.getLast? with
  | some first, some last =>
    let top := Layers.rankOf g first
    let bottom := Layers.rankOf g last
    if top < bottom then some (top + (bottom - top - 1) / 2) else none
  | _, _ => none

/-- All that the ways of edges are taken from. -/
structure Routing (α : Type) where
  /-- The distances. -/
  config : GraphConfig α
  /-- The layered graph. -/
  layering : Layering α
  /-- The order of nodes within ranks. -/
  layers : Layers
  /-- The coordinates. -/
  placement : Placement α
  /-- The placed members. -/
  members : Array (PlacedMember α)
  /-- The gaps between ranks. -/
  gaps : Array α

namespace Routing

variable (r : Routing α)

/-- The center of a node of the layered graph. -/
def center (v : Nat) : Point α := r.placement.centers.getD v Point.origin

/-- A placed member. -/
def member (i : Nat) : PlacedMember α := r.members.getD i ⟨Bounds.zero, 0, 0⟩

/-- The box of the text of an edge that crosses a gap: beside the edge, in the middle of the gap. -/
def gapLabel? (chain : List Nat) (gap : Nat) (size : Size α) : Option (Bounds α) :=
  let top := (chain.head?.map (Layers.rankOf r.layering)).getD 0
  match chain[gap - top]?, chain[gap - top + 1]? with
  | some v, some w =>
    let upper := r.center v
    let lower := r.center w
    let bottom := r.placement.rankTops.getD gap 0 + r.placement.rankHeights.getD gap 0
    let y := bottom + Scalar.half (r.gaps.getD gap 0)
    let t := if lower.y == upper.y then 0.5 else (y - upper.y) / (lower.y - upper.y)
    let x := upper.x + (lower.x - upper.x) * t
    some (Bounds.around
      ⟨x + r.config.edgeLabelPadding + Scalar.half size.width, y⟩ size)
  | _, _ => none

/-- An edge between ranks, by its routing points. -/
def ranked (chain : List Nat) (edge : Nat) (reversed : Bool) (gap : Nat) (label : Option (Size α)) :
    RoutedEdge α :=
  let inner := (chain.drop 1).dropLast.map r.center
  { edge := edge
    kind := .normal
    reversed := reversed
    waypoints := if reversed then inner.reverse else inner
    label := label.bind (r.gapLabel? chain gap) }

/-- Whether two members of a rank are neighbours in it. -/
def areAdjacent (rank source target : Nat) : Bool :=
  let layer := r.layers.getD rank []
  match layer.findIdx? (· == source), layer.findIdx? (· == target) with
  | some i, some j => decide (i - j + (j - i) ≤ 1)
  | _, _ => true

/-- An edge within a rank: straight between neighbours, else by a detour before the rank. -/
def flat (edge source target : Nat) (reversed : Bool) (label : Option (Size α)) : RoutedEdge α :=
  let start := r.member source
  let stop := r.member target
  let lane := r.placement.rankTops.getD start.rank 0 - r.config.flatEdgeOffset
  let adjacent := r.areAdjacent start.rank source target
  let lineY := if adjacent then start.bounds.center.y else lane
  { edge := edge
    kind := .flat
    reversed := reversed
    waypoints :=
      if adjacent then []
      else [⟨start.bounds.center.x, lane⟩, ⟨stop.bounds.center.x, lane⟩]
    label := label.map fun size =>
      let x := Scalar.half (start.bounds.center.x + stop.bounds.center.x)
      Bounds.around
        ⟨x, lineY - r.config.edgeLabelPadding - Scalar.half size.height⟩ size }

/-- An edge from a member to itself: a loop at its far side. -/
def selfLoop (edge member : Nat) (label : Option (Size α)) : RoutedEdge α :=
  let bounds := (r.member member).bounds
  let size := r.config.selfLoopSize
  let half := Scalar.half (min size bounds.height)
  let right := bounds.maxX
  let y := bounds.center.y
  { edge := edge
    kind := .selfLoop
    reversed := false
    waypoints :=
      [⟨right, y - half⟩, ⟨right + size, y - half⟩, ⟨right + size, y + half⟩, ⟨right, y + half⟩]
    label := label.map fun label =>
      Bounds.around
        ⟨right + size + r.config.edgeLabelPadding + Scalar.half label.width, y⟩ label }

/-- An edge between two members. -/
def link (chain : List Nat) (edge source target : Nat) (reversed : Bool) (label : Option (Size α)) :
    RoutedEdge α :=
  match labelGap? r.layering chain with
  | some gap => r.ranked chain edge reversed gap label
  | none => r.flat edge source target reversed label

end Routing

/-! ### The layout of a part -/

namespace Component

variable (config : GraphConfig α) (sizes : Array (Size α)) (shapes : Array (EdgeShape α))

/-- The size of a member of the scope. -/
def sizeOf (member : Nat) : Size α := sizes.getD member Size.zero

omit [Scalar α] in
/-- The text of an edge. -/
def labelOf (edge : Nat) : Option (Size α) := (shapes[edge]?).bind (·.label)

omit [Scalar α] in
/-- The graph of a part, without its loops. -/
def digraph (c : Component) : Digraph :=
  { size := c.members.length
    arcs := c.links.map fun e =>
      ⟨c.localIndex e.source, c.localIndex e.target, (shapes[e.edge]?.map (·.length)).getD 0⟩ }

/-- How far loops reach beyond each member. -/
def loopReach (c : Component) : Array α :=
  c.loops.foldl
    (fun reach e =>
      let label :=
        match labelOf shapes e.edge with
        | some size => size.width + 2 * config.edgeLabelPadding
        | none => 0
      reach.modify (c.localIndex e.source) (max · (config.selfLoopSize + label)))
    (Array.replicate c.members.length 0)

/-- The members with their ranks and sizes. -/
def memberShapes (c : Component) (ranks : Array Nat) : List (MemberShape α) :=
  let reach := c.loopReach config shapes
  c.members.mapIdx fun i member =>
    let size := sizeOf sizes member
    { rank := ranks.getD i 0
      extent := ⟨Scalar.half size.width, Scalar.half size.width + reach.getD i 0⟩
      height := size.height }

/-- The gaps between ranks, widened for the texts of edges. -/
def gaps (c : Component) (g : Layering α) : Array α :=
  (c.links.zip g.chains).foldl
    (fun gaps (e, chain) =>
      match labelOf shapes e.edge, labelGap? g chain with
      | some label, some gap =>
        gaps.modify gap (max · (label.height + 2 * config.edgeLabelPadding))
      | _, _ => gaps)
    (Array.replicate (g.rankCount - 1) config.rankGap)

omit [Scalar α] in
/-- The position of each member among the members of its rank. -/
def orders (c : Component) (layers : Layers) : Array Nat :=
  layers.foldl
    (fun orders layer => Layers.enterPositions orders 0 (layer.filter (· < c.members.length)))
    (Array.replicate c.members.length 0)

/-- The members in their places. -/
def place (c : Component) (ranks : Array Nat) (layers : Layers) (placement : Placement α) :
    List (PlacedMember α) :=
  let orders := c.orders layers
  c.members.mapIdx fun i member =>
    { bounds := Bounds.around (placement.centers.getD i Point.origin) (sizeOf sizes member)
      rank := ranks.getD i 0
      order := orders.getD i 0 }

/-- The ways of the edges: first those between members, then the loops. -/
def routes (c : Component) (reversed : List Nat) (r : Routing α) : List (RoutedEdge α) :=
  (c.links.zip r.layering.chains).mapIdx
      (fun i (e, chain) =>
        r.link chain e.edge (c.localIndex e.source) (c.localIndex e.target) (reversed.contains i)
          (labelOf shapes e.edge)) ++
    c.loops.map fun e => r.selfLoop e.edge (c.localIndex e.source) (labelOf shapes e.edge)

/-- The smallest box around members and edges. -/
def boundsOf (members : List (PlacedMember α)) (edges : List (RoutedEdge α)) : Bounds α :=
  let own :=
    match members with
    | [] => Bounds.zero
    | m :: rest => rest.foldl (fun b n => b.merge n.bounds) m.bounds
  let boxes := edges.flatMap fun e =>
    e.waypoints.map (Bounds.around · Size.zero) ++ e.label.toList
  boxes.foldl Bounds.merge own

/-- The layered graph of a ranked part; `named` routing points have names already. -/
def layering (c : Component) (named : Nat) (ranking : Ranking) : Layering α :=
  Layering.ofEdges config.virtualNodeWidth named (c.memberShapes config sizes shapes ranking.ranks)
    (ranking.oriented.arcs.map fun a => (a.source, a.target))

/-- The members of a ranked part placed in ranks, with the ways of their edges; `g`
is its layered graph. -/
def arrange (c : Component) (ranking : Ranking) (g : Layering α) : ComponentLayout α :=
  let layers := Layers.minimize g config.orderingPasses config.orderingHeuristic
  let gaps := c.gaps config shapes g
  let placement := Placement.ofLayers g layers config.nodeSpacing config.relaxationPasses gaps
  let members := c.place sizes ranking.ranks layers placement
  let edges := c.routes shapes ranking.reversed
    ⟨config, g, layers, placement, members.toArray, gaps⟩
  ⟨boundsOf members edges, members, edges⟩

/-- The layout of a part, and the number of routing points that have names after it. -/
def layout (c : Component) (named : Nat) : Except (Inconsistency α) (ComponentLayout α × Nat) := do
  let ranking ← Ranking.ofDigraph (c.digraph shapes)
  let g := c.layering config sizes shapes named ranking
  .ok (c.arrange config sizes shapes ranking g, named + (g.nodes.size - c.members.length))

end Component

end Drafting.Graph
