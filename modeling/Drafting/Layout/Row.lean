import Drafting.Scalar

/-!
Elements in a row.

An element reaches some way before and some way after its anchor.  `distribute` places anchors from
left to right, as far to the left as the reach of neighbours and the demanded distances permit.
-/

namespace Drafting

/-- How far an element reaches before and after its anchor. -/
structure Extent (α : Type) where
  /-- The reach before the anchor. -/
  before : α
  /-- The reach after the anchor. -/
  after : α
deriving Repr, BEq, DecidableEq

/-- A demanded distance between the anchors of two elements. -/
structure MinDistance (α : Type) where
  /-- The element on the left. -/
  left : Nat
  /-- The element on the right. -/
  right : Nat
  /-- The least distance of their anchors. -/
  distance : α
deriving Repr, DecidableEq

variable {α : Type} [Scalar α]

namespace Extent

/-- A reach of half a size on both sides. -/
def symmetric (size : α) : Extent α := ⟨Scalar.half size, Scalar.half size⟩

/-- The reach that covers two. -/
def cover (e f : Extent α) : Extent α := ⟨max e.before f.before, max e.after f.after⟩

end Extent

namespace Row

/-- The least anchor of an element, given the anchor and the reach of its left neighbour. -/
def least (spacing : α) (extent : Extent α) : Option (α × Extent α) → α
  | none => extent.before
  | some (position, previous) => position + previous.after + spacing + extent.before

/-- The anchor of element `i` once its distances to elements on its left are kept;
`placed` holds their anchors. -/
def push (distances : List (MinDistance α)) (placed : Array α) (i : Nat) (position : α) : α :=
  (distances.filter fun d => d.right == i && decide (d.left < d.right)).foldl
    (fun p d => max p (placed.getD d.left 0 + d.distance)) position

/-- Places the elements after those in `placed`, whose last reach is `previous`. -/
def place (spacing : α) (distances : List (MinDistance α)) (placed : Array α)
    (previous : Option (Extent α)) : List (Extent α) → Array α
  | [] => placed
  | extent :: rest =>
    let start := least spacing extent (previous.map fun e => (placed.back?.getD 0, e))
    place spacing distances (placed.push (push distances placed placed.size start))
      (some extent) rest

/-- The anchors of elements in a row. -/
def distribute (extents : List (Extent α)) (spacing : α) (distances : List (MinDistance α)) :
    List α :=
  (place spacing distances #[] none extents).toList

end Row

end Drafting
