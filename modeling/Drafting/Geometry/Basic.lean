import Drafting.Scalar

/-!
Points, sizes and insets of the drawing plane.

The origin is the top left corner, `x` grows to the right and `y` downward.  Layouts are
computed for drawings that run from top to bottom; `swap` exchanges the axes for those
that run from left to right.
-/

namespace Drafting

/-- A position in the plane. -/
structure Point (α : Type) where
  /-- The horizontal coordinate. -/
  x : α
  /-- The vertical coordinate. -/
  y : α
deriving Repr, BEq, DecidableEq

/-- A width and a height. -/
structure Size (α : Type) where
  /-- The horizontal extent. -/
  width : α
  /-- The vertical extent. -/
  height : α
deriving Repr, BEq, DecidableEq

/-- Room on the four sides of a box. -/
structure Insets (α : Type) where
  /-- Room above. -/
  top : α
  /-- Room to the right. -/
  right : α
  /-- Room below. -/
  bottom : α
  /-- Room to the left. -/
  left : α
deriving Repr, BEq, DecidableEq

variable {α : Type} [Scalar α]

namespace Point

/-- The origin of the plane. -/
def origin : Point α := ⟨0, 0⟩

/-- Moves a point by a vector. -/
def add (p q : Point α) : Point α := ⟨p.x + q.x, p.y + q.y⟩

/-- The vector from `q` to `p`. -/
def sub (p q : Point α) : Point α := ⟨p.x - q.x, p.y - q.y⟩

/-- The point halfway between two points. -/
def midpoint (p q : Point α) : Point α :=
  ⟨Scalar.half (p.x + q.x), Scalar.half (p.y + q.y)⟩

omit [Scalar α] in
/-- Exchanges the axes. -/
def swap (p : Point α) : Point α := ⟨p.y, p.x⟩

instance instInhabited : Inhabited (Point α) := ⟨origin⟩

end Point

namespace Size

/-- The size of nothing. -/
def zero : Size α := ⟨0, 0⟩

/-- The larger width with the larger height. -/
def sup (s t : Size α) : Size α := ⟨max s.width t.width, max s.height t.height⟩

/-- The size of a box after room is added on every side. -/
def pad (s : Size α) (i : Insets α) : Size α :=
  ⟨s.width + i.left + i.right, s.height + i.top + i.bottom⟩

/-- Whether both extents are zero. -/
def isZero (s : Size α) : Bool := s.width == 0 && s.height == 0

omit [Scalar α] in
/-- Exchanges the axes. -/
def swap (s : Size α) : Size α := ⟨s.height, s.width⟩

instance instInhabited : Inhabited (Size α) := ⟨zero⟩

end Size

namespace Insets

omit [Scalar α] in
/-- The same room on every side. -/
def uniform (v : α) : Insets α := ⟨v, v, v, v⟩

end Insets

end Drafting
