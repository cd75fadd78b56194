import Drafting.Geometry.Basic

/-!
Boxes: rectangles with sides along the axes, given by their extreme coordinates.

* `Bounds.around`, `Bounds.ofCorner`, `Bounds.ofCorners`: boxes from a center, a corner, two
  corners.
* `Bounds.merge`: the smallest box around two.
* `Bounds.overlaps`, `Bounds.contains`, `Bounds.containsPoint`: how boxes lie to each other.
* `Bounds.boundaryToward`: where a ray from the center leaves the box.
-/

namespace Drafting

/-- A box, given by its extreme coordinates. -/
structure Bounds (α : Type) where
  /-- The left side. -/
  minX : α
  /-- The top side. -/
  minY : α
  /-- The right side. -/
  maxX : α
  /-- The bottom side. -/
  maxY : α
deriving Repr, BEq, DecidableEq

namespace Bounds

variable {α : Type} [Scalar α]

/-- The box at the origin without extent. -/
def zero : Bounds α := ⟨0, 0, 0, 0⟩

instance instInhabited : Inhabited (Bounds α) := ⟨zero⟩

/-- The box of a size around a center. -/
def around (center : Point α) (size : Size α) : Bounds α :=
  let w := Scalar.half size.width
  let h := Scalar.half size.height
  ⟨center.x - w, center.y - h, center.x + w, center.y + h⟩

/-- The box of a size with its top left corner at a point. -/
def ofCorner (corner : Point α) (size : Size α) : Bounds α :=
  ⟨corner.x, corner.y, corner.x + size.width, corner.y + size.height⟩

/-- The smallest box with two points in it. -/
def ofCorners (p q : Point α) : Bounds α :=
  ⟨min p.x q.x, min p.y q.y, max p.x q.x, max p.y q.y⟩

/-- The horizontal extent. -/
def width (b : Bounds α) : α := b.maxX - b.minX

/-- The vertical extent. -/
def height (b : Bounds α) : α := b.maxY - b.minY

/-- The size of a box. -/
def size (b : Bounds α) : Size α := ⟨b.width, b.height⟩

/-- The center of a box. -/
def center (b : Bounds α) : Point α :=
  ⟨Scalar.half (b.minX + b.maxX), Scalar.half (b.minY + b.maxY)⟩

omit [Scalar α] in
/-- The top left corner. -/
def minPoint (b : Bounds α) : Point α := ⟨b.minX, b.minY⟩

omit [Scalar α] in
/-- The bottom right corner. -/
def maxPoint (b : Bounds α) : Point α := ⟨b.maxX, b.maxY⟩

/-- The smallest box around two boxes. -/
def merge (b c : Bounds α) : Bounds α :=
  ⟨min b.minX c.minX, min b.minY c.minY, max b.maxX c.maxX, max b.maxY c.maxY⟩

/-- Moves a box by a vector. -/
def translate (b : Bounds α) (v : Point α) : Bounds α :=
  ⟨b.minX + v.x, b.minY + v.y, b.maxX + v.x, b.maxY + v.y⟩

/-- Adds room on every side. -/
def pad (b : Bounds α) (i : Insets α) : Bounds α :=
  ⟨b.minX - i.left, b.minY - i.top, b.maxX + i.right, b.maxY + i.bottom⟩

omit [Scalar α] in
/-- Exchanges the axes. -/
def swap (b : Bounds α) : Bounds α := ⟨b.minY, b.minX, b.maxY, b.maxX⟩

/-- Whether two boxes share interior points.  Boxes that only touch do not. -/
def overlaps (b c : Bounds α) : Bool :=
  decide (b.minX < c.maxX) && decide (c.minX < b.maxX) &&
    decide (b.minY < c.maxY) && decide (c.minY < b.maxY)

/-- Whether a point lies in the box or on a side of it. -/
def containsPoint (b : Bounds α) (p : Point α) : Bool :=
  decide (b.minX ≤ p.x) && decide (p.x ≤ b.maxX) &&
    decide (b.minY ≤ p.y) && decide (p.y ≤ b.maxY)

/-- Whether the second box lies in the first, sides included. -/
def contains (b c : Bounds α) : Bool :=
  decide (b.minX ≤ c.minX) && decide (c.maxX ≤ b.maxX) &&
    decide (b.minY ≤ c.minY) && decide (c.maxY ≤ b.maxY)

/-- How far a ray runs until it has covered half the extent of a box along one axis, where `d` is
the component of its direction along that axis; nothing when it runs across the axis. -/
def reach? (extent d : α) : Option α :=
  if Scalar.resolution < Scalar.abs d then some (extent / Scalar.abs d) else none

/-- The distance at which a ray from the center in a direction leaves the box, if it does. -/
def exit? (b : Bounds α) (dx dy : α) : Option α :=
  match reach? (Scalar.half b.width) dx, reach? (Scalar.half b.height) dy with
  | some t, some u => some (min t u)
  | some t, none => some t
  | none, u => u

/-- Where the ray from the center toward a point crosses the outline; the center itself when the
point is the center or the box has no extent. -/
def boundaryToward (b : Bounds α) (target : Point α) : Point α :=
  let c := b.center
  let v := target.sub c
  let length := Scalar.norm v.x v.y
  if length < 0.001 ∨ Scalar.half b.width ≤ 0 ∧ Scalar.half b.height ≤ 0 then c
  else
    let dx := v.x / length
    let dy := v.y / length
    match b.exit? dx dy with
    | none => c
    | some t =>
      if Scalar.saturated t then c else ⟨Scalar.mulAdd dx t c.x, Scalar.mulAdd dy t c.y⟩

end Bounds

end Drafting
