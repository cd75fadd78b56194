import Drafting.Binary.Exact
import Drafting.Decimal

/-!
Reading numerals as machine numbers.

A numeral is read in 64 bits; a coordinate is that number rounded again to 32 bits.
-/

namespace Drafting.Decimal

/-- The magnitude of a numeral in 64 bits.  Numerals far outside the range are
settled by their size alone. -/
def magnitude (digits : Nat) (exponent : Int) : Float :=
  let scale := (Nat.log2 digits / 4 : Int) + exponent
  if digits = 0 then 0
  else if 400 < scale then Float.ofBits 0x7FF0000000000000
  else if scale < -2000 - (Nat.log2 digits : Int) then 0
  else
    let r := if 0 ≤ exponent then mkRat (digits * Nat.pow 10 exponent.toNat : Nat) 1
      else mkRat digits (Nat.pow 10 (-exponent).toNat)
    Binary.toDouble r

/-- The number of 64 bits that a numeral is read as. -/
def toDouble : Decimal → Float
  | finite negative digits exponent =>
    if negative then -(magnitude digits exponent) else magnitude digits exponent
  | infinite negative =>
    Float.ofBits (if negative then 0xFFF0000000000000 else 0x7FF0000000000000)
  | nan => Float.ofBits 0x7FF8000000000000

/-- The number of 32 bits that a numeral is read as, by way of 64 bits. -/
def toSingle (d : Decimal) : Float32 := Binary.narrow d.toDouble

end Drafting.Decimal
