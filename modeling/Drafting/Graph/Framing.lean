import Drafting.Geometry.Orient
import Drafting.Graph.ScopeLayout

/-!
Clusters around their interiors.

The scopes are laid out from the innermost outward, since the frame of a cluster is a member of the
scope around it; then they are moved into the frames from the outermost inward.  All of this happens
in the axes of the layout, where ranks follow each other downward.

* `Frame.around`: the frame around an interior, with room for a head.
* `Interiors.ofScopes`: every scope laid out by itself.
* `Placed.ofInteriors`: every element in its place.
-/

namespace Drafting.Graph

variable {α : Type} [Scalar α]

/-! ### Frames -/

/-- The frame of a cluster. -/
structure Frame (α : Type) where
  /-- Its size. -/
  size : Size α
  /-- Where the interior begins, from the corner of the frame. -/
  inset : Point α
deriving Repr, DecidableEq

namespace Frame

/-- A frame without extent. -/
def empty : Frame α := ⟨Size.zero, Point.origin⟩

/-- The room for a head that takes an extent itself; none for an empty head. -/
def headRoom (padding extent : α) : α := if 0 < extent then extent + padding else 0

/-- The frame around an interior.  The head is at the top of the drawing, so it takes room before
the interior along the axis that points downward there; `head` is its size in the drawing. -/
def around (d : Direction) (padding : α) (head : Size α) (interior : Size α) : Frame α :=
  let head := head.orient d
  match d with
  | .topToBottom =>
    let room := headRoom padding head.height
    { size := ⟨max interior.width head.width + 2 * padding, interior.height + room + 2 * padding⟩
      inset := ⟨padding, padding + room⟩ }
  | .leftToRight =>
    let room := headRoom padding head.width
    { size := ⟨interior.width + room + 2 * padding, max interior.height head.height + 2 * padding⟩
      inset := ⟨padding + room, padding⟩ }

end Frame

/-! ### Interiors -/

/-- The sizes of all that is to be placed, in the axes of the layout, the
heads of clusters apart. -/
structure Shapes (α : Type) where
  /-- The sizes of nodes. -/
  nodes : Array (Size α)
  /-- The sizes of the heads of clusters, in the drawing. -/
  heads : Array (Size α)
  /-- The shapes of edges. -/
  edges : Array (EdgeShape α)

/-- Scopes laid out by themselves. -/
structure Interiors (α : Type) where
  /-- The layout of each scope: the whole diagram first, then the interiors of the clusters. -/
  scopes : Array (ScopeLayout α)
  /-- The frames of the clusters. -/
  frames : Array (Frame α)
  /-- The number of routing points that have names. -/
  named : Nat

namespace Interiors

/-- No scope laid out yet. -/
def empty (clusters : Nat) : Interiors α :=
  { scopes := Array.replicate (clusters + 1) ⟨Size.zero, #[], []⟩
    frames := Array.replicate clusters Frame.empty
    named := 0 }

/-- The frame of a cluster. -/
def frame (i : Interiors α) (cluster : Nat) : Frame α := i.frames.getD cluster Frame.empty

/-- The layout of a scope. -/
def scope (i : Interiors α) (container : Option Nat) : ScopeLayout α :=
  i.scopes.getD (Containment.scopeIndex container) ⟨Size.zero, #[], []⟩

/-- The size of a member of a scope. -/
def memberSize (shapes : Shapes α) (i : Interiors α) : Member → Size α
  | .node n => shapes.nodes.getD n Size.zero
  | .cluster c => (i.frame c).size

/-- Enters the layout of a scope, and the frame around it. -/
def enter (config : GraphConfig α) (shapes : Shapes α) (i : Interiors α) (container : Option Nat)
    (l : ScopeLayout α) (named : Nat) : Interiors α :=
  { scopes := i.scopes.setIfInBounds (Containment.scopeIndex container) l
    frames :=
      match container with
      | none => i.frames
      | some c =>
        i.frames.setIfInBounds c
          (Frame.around config.direction config.clusterPadding
            (shapes.heads.getD c Size.zero) l.size)
    named := named }

/-- Lays out scopes, each with the frames of those before it. -/
def layAll (config : GraphConfig α) (shapes : Shapes α) :
    List Scope → Interiors α → Except (Inconsistency α) (Interiors α)
  | [], i => .ok i
  | s :: rest, i =>
    let sizes := (s.members.map (i.memberSize shapes)).toArray
    match ScopeLayout.ofScope config s sizes shapes.edges i.named with
    | .error e => .error e
    | .ok (l, named) => layAll config shapes rest (i.enter config shapes s.container l named)

/-- Lays out the scopes of a graph, which are given with inner ones before outer ones. -/
def ofScopes (config : GraphConfig α) (shapes : Shapes α) (clusters : Nat) (scopes : List Scope) :
    Except (Inconsistency α) (Interiors α) :=
  layAll config shapes scopes (empty clusters)

end Interiors

/-! ### Places -/

/-- Every element in its place, in the axes of the layout. -/
structure Placed (α : Type) where
  /-- The nodes. -/
  nodes : Array (PlacedMember α)
  /-- The frames of the clusters. -/
  clusters : Array (Bounds α)
  /-- The ways of the edges that have both ends. -/
  edges : Array (Option (RoutedEdge α))

namespace Placed

/-- Nothing placed yet. -/
def empty (c : Containment α) : Placed α :=
  { nodes := Array.replicate c.nodes.length ⟨Bounds.zero, 0, 0⟩
    clusters := Array.replicate c.clusters.length Bounds.zero
    edges := Array.replicate c.ends.length none }

/-- A node. -/
def node (p : Placed α) (i : Nat) : PlacedMember α := p.nodes.getD i ⟨Bounds.zero, 0, 0⟩

/-- The frame of a cluster. -/
def cluster (p : Placed α) (i : Nat) : Bounds α := p.clusters.getD i Bounds.zero

omit [Scalar α] in
/-- The way of an edge. -/
def edge? (p : Placed α) (i : Nat) : Option (RoutedEdge α) := p.edges.getD i none

/-- Where the interior of a scope begins. -/
def origin (i : Interiors α) (p : Placed α) : Option Nat → Point α
  | none => Point.origin
  | some c => (p.cluster c).minPoint.add (i.frame c).inset

omit [Scalar α] in
/-- Enters the place of a member. -/
def enterMember (p : Placed α) (member : Member) (place : PlacedMember α) : Placed α :=
  match member with
  | .node n => { p with nodes := p.nodes.setIfInBounds n place }
  | .cluster c => { p with clusters := p.clusters.setIfInBounds c place.bounds }

omit [Scalar α] in
/-- Enters the way of an edge. -/
def enterEdge (p : Placed α) (e : RoutedEdge α) : Placed α :=
  { p with edges := p.edges.setIfInBounds e.edge (some e) }

/-- Moves the members and edges of a scope into the frame around it. -/
def placeScope (i : Interiors α) (p : Placed α) (s : Scope) : Placed α :=
  let offset := p.origin i s.container
  let l := i.scope s.container
  let p := (s.members.zip l.members.toList).foldl
    (fun p (m, place) => p.enterMember m (place.translate offset)) p
  l.edges.foldl (fun p e => p.enterEdge (e.translate offset)) p

/-- Places every element, from the whole diagram inward; the scopes are given the other way
round. -/
def ofInteriors (c : Containment α) (scopes : List Scope) (i : Interiors α) : Placed α :=
  scopes.reverse.foldl (placeScope i) (empty c)

end Placed

end Drafting.Graph
