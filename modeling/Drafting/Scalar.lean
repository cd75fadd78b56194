/-!
Coordinates.

Every length, position and size of a drawing is a value of one scalar type.  The layout never looks
inside it: it adds, scales and compares, and asks for the few further operations of `Scalar`.  So
each definition of the library exists twice, once over the binary floating-point numbers a drawing
program works with and once over the rationals, where the arithmetic is exact.

* `Scalar`: what a layout needs of its coordinates.
* `Scalar.half`, `Scalar.sum`, `Scalar.maximum`: the derived operations used throughout.
-/

namespace Drafting

/-- The operations a layout needs of its coordinates.

`max` and `min` pass over an operand that is not a number, `compare` is a total order used for
sorting, and `saturated` tells that a length is at the end of the representable range or past it. -/
class Scalar (α : Type) extends
    Add α, Sub α, Mul α, Div α, Neg α, LT α, LE α, BEq α, Max α, Min α, Ord α where
  /-- The order is decidable. -/
  decLt : DecidableLT α
  /-- The weak order is decidable. -/
  decLe : DecidableLE α
  /-- The scalar nearest to a natural number. -/
  ofNat : Nat → α
  /-- The scalar nearest to the decimal `m · 10^e`, or `m · 10^(-e)` when the flag is set. -/
  ofScientific : Nat → Bool → Nat → α
  /-- The absolute value. -/
  abs : α → α
  /-- The length of a vector given by its two components. -/
  norm : α → α → α
  /-- The value `a * b + c`, rounded once. -/
  mulAdd : α → α → α → α
  /-- Whether the scalar is an ordinary number. -/
  isFinite : α → Bool
  /-- Whether the scalar lies at the end of the representable range or past it. -/
  saturated : α → Bool
  /-- The resolution of directions: a component of a unit vector at most this
  large counts as zero. -/
  resolution : α
  /-- The text of a scalar in a message. -/
  text : α → String

namespace Scalar

variable {α : Type} [Scalar α]

instance (priority := low) instDecidableLT : DecidableLT α := Scalar.decLt

instance (priority := low) instDecidableLE : DecidableLE α := Scalar.decLe

instance (priority := low) instOfNat (n : Nat) : OfNat α n := ⟨Scalar.ofNat n⟩

instance (priority := low) instOfScientific : OfScientific α := ⟨Scalar.ofScientific⟩

instance (priority := low) instInhabited : Inhabited α := ⟨0⟩

/-- Half of a length. -/
def half (x : α) : α := x / 2

/-- The sum of a list, taken from the left. -/
def sum (xs : List α) : α := xs.foldl (· + ·) 0

/-- The largest of a list and a starting value, compared from the left. -/
def maximum (start : α) (xs : List α) : α := xs.foldl max start

end Scalar

end Drafting
