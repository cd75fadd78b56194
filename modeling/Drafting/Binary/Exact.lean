import Drafting.Binary.Format

/-!
Machine numbers and the rationals they stand for.

* `ofSingle`: the rational a finite number of 32 bits stands for.
* `toSingle`, `toDouble`: the machine number nearest to a rational.
* `narrow`: a number of 64 bits rounded to 32.
* `fused`: `a * b + c` rounded once.
* `length`: the length of a vector, taken in 64 bits and rounded to 32.
-/

namespace Drafting.Binary

/-- The rational a finite number of 32 bits stands for. -/
def ofSingle (x : Float32) : Rat :=
  let bits := x.toBits.toNat
  let magnitude := single.value (bits % 0x80000000)
  if bits < 0x80000000 then magnitude else -magnitude

/-- The number of 32 bits nearest to a rational. -/
def toSingle (r : Rat) : Float32 :=
  if r < 0 then Float32.ofBits (UInt32.ofNat (0x80000000 + single.nearest (-r)))
  else Float32.ofBits (UInt32.ofNat (single.nearest r))

/-- The number of 64 bits nearest to a rational. -/
def toDouble (r : Rat) : Float :=
  if r < 0 then Float.ofBits (UInt64.ofNat (0x8000000000000000 + double.nearest (-r)))
  else Float.ofBits (UInt64.ofNat (double.nearest r))

/-- Rounds a number of 64 bits to 32.  A zero and an infinity keep their sign. -/
def narrow (x : Float) : Float32 :=
  if x.isNaN then Float32.ofBits 0x7FC00000
  else
    let bits := x.toBits.toNat
    let magnitude := bits % 0x8000000000000000
    let rounded :=
      if magnitude = double.infinity then single.infinity
      else single.nearest (double.value magnitude)
    Float32.ofBits
      (UInt32.ofNat (if bits < 0x8000000000000000 then rounded else 0x80000000 + rounded))

/-- The value `a * b + c` rounded once.  An exact zero takes the sign that the
two roundings give it. -/
def fused (a b c : Float32) : Float32 :=
  if a.isFinite && b.isFinite then
    if c.isFinite then
      let exact := ofSingle a * ofSingle b + ofSingle c
      if exact = 0 then a * b + c else toSingle exact
    else c
  else a * b + c

/-- The length of the vector `(x, y)`: the squares are summed and the root is taken in 64
bits, and the result is rounded to 32.  An infinite component makes the length infinite
whatever the other is. -/
def length (x y : Float32) : Float32 :=
  if x.isInf || y.isInf then Float32.ofBits 0x7F800000
  else if x.isNaN || y.isNaN then Float32.ofBits 0x7FC00000
  else narrow (toDouble (ofSingle x * ofSingle x + ofSingle y * ofSingle y)).sqrt

end Drafting.Binary
