/-!
Readers: functions that take what they read off the front of a text.
-/

namespace Drafting

/-- Reads a value off the front of a text and returns the rest, if the text begins with one. -/
abbrev Reader (β : Type) := List Char → Option (β × List Char)

namespace Reader

/-- Reads a fixed text. -/
def literal : List Char → List Char → Option (List Char)
  | [], rest => some rest
  | _ :: _, [] => none
  | c :: cs, d :: ds => if c = d then literal cs ds else none

/-- The value of a digit in a base of at most sixteen. -/
def digit? (base : Nat) (c : Char) : Option Nat :=
  let n := c.toNat
  let value :=
    if 0x30 ≤ n ∧ n ≤ 0x39 then n - 0x30
    else if 0x61 ≤ n ∧ n ≤ 0x66 then n - 0x57
    else if 0x41 ≤ n ∧ n ≤ 0x46 then n - 0x37
    else base
  if value < base then some value else none

/-- The number that a list of digits writes. -/
def digits? (base : Nat) (cs : List Char) : Option Nat :=
  cs.foldlM (fun n c => (digit? base c).map (n * base + ·)) 0

/-- Reads a fixed number of hexadecimal digits. -/
def hex (count : Nat) : Reader Nat := fun cs =>
  if cs.length < count then none
  else (digits? 16 (cs.take count)).map (·, cs.drop count)

/-- Splits off the longest run of characters of a class. -/
def span (p : Char → Bool) (cs : List Char) : List Char × List Char :=
  (cs.takeWhile p, cs.dropWhile p)

end Reader

end Drafting
