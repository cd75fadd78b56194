/-!
Decimal numerals.

A `Decimal` is what a numeral says before it is rounded to any format: a sign, digits and a power of
ten, or one of the values that are not numbers.

* `Decimal.positional`: the numeral written without an exponent.
* `Decimal.toDouble`, `Decimal.toSingle`: the machine numbers a numeral is read as.
-/

namespace Drafting

/-- A decimal numeral. -/
inductive Decimal where
  /-- The number `± digits · 10 ^ exponent`. -/
  | finite (negative : Bool) (digits : Nat) (exponent : Int)
  /-- An infinity. -/
  | infinite (negative : Bool)
  /-- Not a number. -/
  | nan
deriving Repr, DecidableEq, Inhabited

namespace Decimal

/-- The digits of `digits · 10 ^ exponent` with the point where it belongs, no digit more. -/
def positionalDigits (digits : Nat) (exponent : Int) : String :=
  let written := toString digits
  if 0 ≤ exponent then
    if digits = 0 then "0" else written ++ String.ofList (List.replicate exponent.toNat '0')
  else
    let places := (-exponent).toNat
    if written.length ≤ places then
      "0." ++ String.ofList (List.replicate (places - written.length) '0') ++ written
    else
      let whole := written.toList.take (written.length - places)
      let fraction := written.toList.drop (written.length - places)
      String.ofList whole ++ "." ++ String.ofList fraction

/-- The numeral without an exponent; the values that are no numbers have names. -/
def positional : Decimal → String
  | finite negative digits exponent =>
    (if negative then "-" else "") ++ positionalDigits digits exponent
  | infinite negative => if negative then "-inf" else "inf"
  | nan => "NaN"

/-- The numeral without the sign of a zero. -/
def unsignedZero : Decimal → Decimal
  | finite _ 0 _ => finite false 0 0
  | d => d

end Decimal

end Drafting
