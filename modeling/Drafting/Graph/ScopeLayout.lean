import Drafting.Graph.Component

/-!
The layout of a scope: its connected parts side by side.
-/

namespace Drafting.Graph

/-- A scope with its members placed from the origin on. -/
structure ScopeLayout (α : Type) where
  /-- The room it takes. -/
  size : Size α
  /-- Its members. -/
  members : Array (PlacedMember α)
  /-- Its edges. -/
  edges : List (RoutedEdge α)
deriving Repr, DecidableEq

namespace ScopeLayout

variable {α : Type} [Scalar α]

/-- A scope whose parts are being placed from left to right. -/
structure Progress (α : Type) where
  /-- Where the next part begins. -/
  cursor : α
  /-- The height of the highest part so far. -/
  height : α
  /-- The members; those of later parts are at the origin. -/
  members : Array (PlacedMember α)
  /-- The edges so far. -/
  edges : List (RoutedEdge α)

/-- Places a part at the cursor. -/
def Progress.add (config : GraphConfig α) (p : Progress α) (c : Component) (l : ComponentLayout α) :
    Progress α :=
  let offset : Point α := ⟨p.cursor - l.bounds.minX, -l.bounds.minY⟩
  { cursor := p.cursor + (l.bounds.width + config.componentGap)
    height := max p.height l.bounds.height
    members := (c.members.zip l.members).foldl
      (fun members (i, m) => members.setIfInBounds i (m.translate offset)) p.members
    edges := p.edges ++ l.edges.map (·.translate offset) }

/-- Lays out parts and places them one after the other; also counts the named routing points. -/
def placeAll (config : GraphConfig α) (sizes : Array (Size α)) (shapes : Array (EdgeShape α)) :
    List Component → Progress α → Nat → Except (Inconsistency α) (Progress α × Nat)
  | [], p, named => .ok (p, named)
  | c :: rest, p, named =>
    match c.layout config sizes shapes named with
    | .error e => .error e
    | .ok (l, named) => placeAll config sizes shapes rest (p.add config c l) named

omit [Scalar α] in
/-- Edges by their numbers.  The parts come with theirs in another order: one part after the other,
and in each the loops last. -/
def byNumber (edges : List (RoutedEdge α)) : List (RoutedEdge α) :=
  edges.mergeSort fun e f => decide (e.edge ≤ f.edge)

/-- The layout of a scope, given the sizes of its members and the shapes of all edges; also the
number of routing points that have names after it. -/
def ofScope (config : GraphConfig α) (s : Scope) (sizes : Array (Size α))
    (shapes : Array (EdgeShape α)) (named : Nat) :
    Except (Inconsistency α) (ScopeLayout α × Nat) :=
  let components := Component.ofScope s
  let start : Progress α :=
    { cursor := 0
      height := 0
      members := sizes.map fun size => ⟨Bounds.ofCorner Point.origin size, 0, 0⟩
      edges := [] }
  match placeAll config sizes shapes components start named with
  | .error e => .error e
  | .ok (p, named) =>
    let width := if components.isEmpty then 0 else p.cursor - config.componentGap
    .ok (⟨⟨width, p.height⟩, p.members, byNumber p.edges⟩, named)

end ScopeLayout

end Drafting.Graph
