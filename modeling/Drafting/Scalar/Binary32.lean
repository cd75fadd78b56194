import Drafting.Binary.Exact
import Drafting.Decimal.Shortest
import Drafting.Scalar

/-!
The coordinates of a drawing program: binary floating-point numbers of 32 bits.

Every operation rounds to 32 bits, `max` and `min` pass over an operand that is not a
number, and the order for sorting is the order of the patterns, which puts the negative
zero below the positive one.
-/

namespace Drafting.Binary32

/-- The larger of two numbers; the other one when one is not a number. -/
def max (x y : Float32) : Float32 :=
  if x.isNaN then y else if y.isNaN then x else if x < y then y else x

/-- The smaller of two numbers; the other one when one is not a number. -/
def min (x y : Float32) : Float32 :=
  if x.isNaN then y else if y.isNaN then x else if y < x then y else x

/-- The position of a pattern in the total order of all patterns. -/
def sortKey (x : Float32) : Int :=
  let bits := x.toBits.toNat
  if bits < 0x80000000 then (bits : Int) else 0x7FFFFFFF - (bits : Int)

/-- The largest finite number. -/
def largest : Float32 := Float32.ofBits 0x7F7FFFFF

/-- The distance from one to the next larger number. -/
def epsilon : Float32 := Float32.ofBits 0x34000000

end Drafting.Binary32

namespace Drafting

instance instScalarFloat32 : Scalar Float32 where
  add := Float32.add
  sub := Float32.sub
  mul := Float32.mul
  div := Float32.div
  neg := Float32.neg
  lt x y := x < y
  le x y := x ≤ y
  beq x y := x == y
  max := Binary32.max
  min := Binary32.min
  compare x y := Ord.compare (Binary32.sortKey x) (Binary32.sortKey y)
  decLt x y := Float32.decLt x y
  decLe x y := Float32.decLe x y
  ofNat := Float32.ofNat
  ofScientific := Float32.ofScientific
  abs := Float32.abs
  norm := Binary.length
  mulAdd := Binary.fused
  isFinite := Float32.isFinite
  saturated x := !x.isFinite || x == Binary32.largest
  resolution := Binary32.epsilon
  text x := (Decimal.ofSingle x).positional

end Drafting
