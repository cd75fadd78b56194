import Drafting.Binary.Format
import Drafting.Decimal

/-!
The shortest numeral of a machine number.

A finite pattern stands for every real that rounds to it: those between the midpoints to its two
neighbours, the midpoints themselves when its significand is even.  Of the numerals in that
interval the shortest is taken, and of two equally short ones the nearer.  The search walks down
the powers of ten; on each grid only the two neighbours of the value can be in the interval before
a coarser grid has a hit.
-/

namespace Drafting.Decimal

/-- An interval of reals around a value, all three in units of `num / den`. -/
structure Interval where
  /-- The lower end. -/
  low : Nat
  /-- The value itself. -/
  mid : Nat
  /-- The upper end. -/
  high : Nat
  /-- Whether the ends belong to the interval. -/
  closed : Bool
  /-- Numerator of the unit. -/
  num : Nat
  /-- Denominator of the unit. -/
  den : Nat

namespace Interval

/-- The reals that round to a positive finite pattern of a format. -/
def ofBits (f : Binary.Format) (bits : Nat) : Interval :=
  let m := f.significand bits
  let q := f.unitExponent bits - 2
  -- below a power of two the neighbour is half a unit away
  let below := if f.significand (bits - 1) < m then 2 else 1
  { low := 4 * m - below
    mid := 4 * m
    high := 4 * m + 2
    closed := m % 2 == 0
    num := Nat.pow 2 q.toNat
    den := Nat.pow 2 (-q).toNat }

/-- Whether `num / den` lies in the interval. -/
def contains (i : Interval) (num den : Nat) : Bool :=
  let x := num * i.den
  let low := i.low * i.num * den
  let high := i.high * i.num * den
  if i.closed then low ≤ x && x ≤ high else low < x && x < high

/-- The point of the grid `10 ^ k` in the interval that is nearest to the value, as a multiple of
`10 ^ k`.  At equal distance the larger one is taken. -/
def gridPoint? (i : Interval) (k : Int) : Option Nat :=
  let up := Nat.pow 10 k.toNat
  let down := Nat.pow 10 (-k).toNat
  let value := i.mid * i.num * down
  let grid := i.den * up
  let c := value / grid
  let below := c != 0 && i.contains (c * up) down
  let above := i.contains ((c + 1) * up) down
  if below && above then
    if 2 * (value % grid) < grid then some c else some (c + 1)
  else if below then some c
  else if above then some (c + 1)
  else none

/-- A power of ten that is at least the value. -/
def topExponent (i : Interval) : Int :=
  let value := i.mid * i.num
  if i.den ≤ value then ((toString (value / i.den)).length : Int)
  else 1 - ((toString (i.den / value)).length : Int)

/-- Walks down the grids from `10 ^ k` to the first with a point in the interval. -/
def search (i : Interval) : Nat → Int → Nat × Int
  | 0, k => (i.mid * i.num * Nat.pow 10 (-k).toNat / (i.den * Nat.pow 10 k.toNat), k)
  | fuel + 1, k =>
    match i.gridPoint? k with
    | some c => (c, k)
    | none => search i fuel (k - 1)

end Interval

/-- The shortest numeral that is read back as the given number of 32 bits.  Seventeen grids below
the first are more than its nine digits need. -/
def ofSingle (x : Float32) : Decimal :=
  if x.isNaN then nan
  else
    let bits := x.toBits.toNat
    let negative := 0x80000000 ≤ bits
    let magnitude := bits % 0x80000000
    if magnitude = Binary.single.infinity then infinite negative
    else if magnitude = 0 then finite negative 0 0
    else
      let i := Interval.ofBits Binary.single magnitude
      let (digits, exponent) := i.search 17 i.topExponent
      finite negative digits exponent

end Drafting.Decimal
