/-!
Binary floating-point formats, decoded exactly.

A pattern of a format, its sign bit cleared, is read as the rational number it stands for
(`Format.value`), and a nonnegative rational is rounded to the nearest pattern, a tie going to the
even one (`Format.nearest`).  With these two an operation that is to be rounded only once is the
operation on rationals, rounded.
-/

namespace Drafting.Binary

/-- A binary format: its number of significant bits, the exponent of its least positive number, and
the pattern of infinity with the sign bit cleared. -/
structure Format where
  /-- The number of significant bits, the leading one included. -/
  precision : Nat
  /-- The least positive number is `2 ^ least`. -/
  least : Int
  /-- The pattern that stands for infinity. -/
  infinity : Nat
deriving Repr, DecidableEq

/-- The format of 32 bits. -/
def single : Format := ⟨24, -149, 0x7F800000⟩

/-- The format of 64 bits. -/
def double : Format := ⟨53, -1074, 0x7FF0000000000000⟩

/-- The rational `2 ^ k`. -/
def twoPow (k : Int) : Rat := mkRat (Nat.pow 2 k.toNat) (Nat.pow 2 (-k).toNat)

/-- The exponent of the leading bit of a positive rational: `2 ^ k ≤ r < 2 ^ (k + 1)`. -/
def leadingBit (r : Rat) : Int :=
  let k : Int := (Nat.log2 r.num.toNat : Int) - (Nat.log2 r.den : Int)
  if twoPow k ≤ r then k else k - 1

/-- The integer nearest to a nonnegative rational, a half going to the even neighbour. -/
def roundHalfEven (r : Rat) : Nat :=
  let quotient := r.num.toNat / r.den
  let twice := 2 * (r.num.toNat % r.den)
  if twice < r.den then quotient
  else if r.den < twice then quotient + 1
  else quotient + quotient % 2

namespace Format

variable (f : Format)

/-- The significand of a pattern. -/
def significand (bits : Nat) : Nat :=
  let unit := Nat.pow 2 (f.precision - 1)
  if bits / unit = 0 then bits else unit + bits % unit

/-- The exponent of the last significant bit of a pattern. -/
def unitExponent (bits : Nat) : Int :=
  f.least + ((bits / Nat.pow 2 (f.precision - 1) - 1 : Nat) : Int)

/-- The rational a finite pattern stands for. -/
def value (bits : Nat) : Rat :=
  mkRat (f.significand bits) 1 * twoPow (f.unitExponent bits)

/-- The pattern nearest to a nonnegative rational; infinity past the end of the range. -/
def nearest (r : Rat) : Nat :=
  if r = 0 then 0
  else
    let unit := max (leadingBit r - ((f.precision - 1 : Nat) : Int)) f.least
    let steps := roundHalfEven (r * twoPow (-unit))
    min f.infinity ((unit - f.least).toNat * Nat.pow 2 (f.precision - 1) + steps)

end Format

end Drafting.Binary
