import Drafting.Scalar

/-!
Exact coordinates: the rational numbers.

Nothing is rounded, nothing overflows, and every number is finite.  The length of a vector
serves only to scale a direction, which any positive multiple does as well, so the larger
component stands for it.
-/

namespace Drafting

instance instScalarRat : Scalar Rat where
  toAdd := Rat.instAdd
  toSub := Rat.instSub
  toMul := Rat.instMul
  toDiv := Rat.instDiv
  toNeg := Rat.instNeg
  toLT := Rat.instLT
  toLE := Rat.instLE
  toMax := Rat.instMax
  toMin := Rat.instMin
  beq x y := decide (x = y)
  compare x y := if x < y then .lt else if x = y then .eq else .gt
  decLt := Rat.instDecidableLt
  decLe := Rat.instDecidableLe
  ofNat n := @OfNat.ofNat Rat n Rat.instOfNat
  ofScientific m s e := @OfScientific.ofScientific Rat Rat.instOfScientific m s e
  abs x := if x < 0 then -x else x
  norm x y := @max Rat Rat.instMax (if x < 0 then -x else x) (if y < 0 then -y else y)
  mulAdd x y z := x * y + z
  isFinite _ := true
  saturated _ := false
  resolution := @OfNat.ofNat Rat 0 Rat.instOfNat
  text x := toString x.num ++ "/" ++ toString x.den

end Drafting
