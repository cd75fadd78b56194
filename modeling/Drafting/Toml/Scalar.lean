import Drafting.Document
import Drafting.Document.Reader

/-!
The bare values of TOML: truth values, whole numbers, other numbers, dates and times.

A bare value is a word without blanks; `Toml.bare?` says what it means, if anything.  Numerals of
any size are read: which of them are in range is for the reader of the document to say.

* `Toml.integer?`: a whole number.
* `Toml.float?`: a number with a fraction or an exponent, or one of the names of infinity and
  of what is not a number.
* `Toml.isMoment`: whether a word is a date, a time, or both; the day has to be in the calendar.
-/

namespace Drafting.Toml

/-- Removes the underscores of a numeral; each must stand between two digits. -/
def plainDigits? (base : Nat) : List Char → Option (List Char)
  | [] => none
  | [c] => (Reader.digit? base c).map fun _ => [c]
  | c :: '_' :: rest =>
    match Reader.digit? base c, plainDigits? base rest with
    | some _, some ds => some (c :: ds)
    | _, _ => none
  | c :: rest =>
    match Reader.digit? base c, plainDigits? base rest with
    | some _, some ds => some (c :: ds)
    | _, _ => none

/-- The digits of a decimal whole number, which has no leading zero. -/
def decimalDigits? (cs : List Char) : Option (List Char) :=
  match plainDigits? 10 cs with
  | some ds => if ds.head? = some '0' ∧ 1 < ds.length then none else some ds
  | none => none

/-- Splits off a sign; true for minus. -/
def sign : List Char → Bool × List Char
  | '-' :: rest => (true, rest)
  | '+' :: rest => (false, rest)
  | rest => (false, rest)

/-- A whole number in base ten, sixteen, eight or two. -/
def integer? (cs : List Char) : Option Int :=
  match cs with
  | '0' :: 'x' :: rest => do
    let n ← Reader.digits? 16 (← plainDigits? 16 rest)
    some (n : Int)
  | '0' :: 'o' :: rest => do
    let n ← Reader.digits? 8 (← plainDigits? 8 rest)
    some (n : Int)
  | '0' :: 'b' :: rest => do
    let n ← Reader.digits? 2 (← plainDigits? 2 rest)
    some (n : Int)
  | _ => do
    let (negative, rest) := sign cs
    let n ← Reader.digits? 10 (← decimalDigits? rest)
    some (if negative then -(n : Int) else n)

/-- Splits at the first character of a class: what stands before it, and what
after it if it occurs. -/
def splitAt (p : Char → Bool) (cs : List Char) : List Char × Option (List Char) :=
  match cs.dropWhile fun c => !p c with
  | [] => (cs, none)
  | _ :: rest => (cs.takeWhile fun c => !p c, some rest)

/-- A number with a fraction or an exponent. -/
def fractional? (cs : List Char) : Option Decimal := do
  let (negative, rest) := sign cs
  let (mantissa, exponent) := splitAt (fun c => c == 'e' || c == 'E') rest
  let (whole, fraction) := splitAt (· == '.') mantissa
  if exponent.isNone && fraction.isNone then none
  else
    let wholeDigits ← decimalDigits? whole
    let fractionDigits ←
      match fraction with
      | some f => plainDigits? 10 f
      | none => some []
    let scale ←
      match exponent with
      | some e => do
        let (below, e) := sign e
        let n ← Reader.digits? 10 (← plainDigits? 10 e)
        some (if below then -(n : Int) else n)
      | none => some 0
    let n ← Reader.digits? 10 (wholeDigits ++ fractionDigits)
    some (.finite negative n (scale - fractionDigits.length))

/-- A number that is not whole. -/
def float? (cs : List Char) : Option Decimal :=
  let (negative, rest) := sign cs
  if rest = ['i', 'n', 'f'] then some (.infinite negative)
  else if rest = ['n', 'a', 'n'] then some .nan
  else fractional? cs

/-! ### Dates and times -/

/-- Reads the number that two digits write. -/
def twoDigits : Reader Nat
  | a :: b :: rest => (Reader.digits? 10 [a, b]).map (·, rest)
  | _ => none

/-- Takes two digits off the front that write a number not above a limit. -/
def upTo (limit : Nat) (cs : List Char) : Option (List Char) :=
  match twoDigits cs with
  | some (n, rest) => if n ≤ limit then some rest else none
  | none => none

/-- Whether a year has a 29th of February: every fourth year does, but of the full
centuries only every fourth. -/
def isLeapYear (year : Nat) : Bool := year % 4 == 0 && (year % 100 != 0 || year % 400 == 0)

/-- The number of days in a month, the first month being 1. -/
def daysInMonth (year month : Nat) : Nat :=
  if month = 2 then if isLeapYear year then 29 else 28
  else if month = 4 ∨ month = 6 ∨ month = 9 ∨ month = 11 then 30
  else 31

/-- Whether there is such a day. -/
def isDay (year month day : Nat) : Bool :=
  1 ≤ month && month ≤ 12 && 1 ≤ day && day ≤ daysInMonth year month

/-- Takes a date off the front: year, month and day. -/
def date : List Char → Option (List Char)
  | a :: b :: c :: d :: '-' :: rest =>
    match Reader.digits? 10 [a, b, c, d], twoDigits rest with
    | some year, some (month, '-' :: rest) =>
      match twoDigits rest with
      | some (day, rest) => if isDay year month day then some rest else none
      | none => none
    | _, _ => none
  | _ => none

/-- Takes a time of day off the front: hours and minutes, and seconds with an optional fraction.  A
minute may have a leap second. -/
def clock (cs : List Char) : Option (List Char) :=
  match upTo 23 cs with
  | some (':' :: rest) =>
    match upTo 59 rest with
    | some (':' :: rest) =>
      match upTo 60 rest with
      | some ('.' :: rest) =>
        match Reader.span Char.isDigit rest with
        | ([], _) => none
        | (_, rest) => some rest
      | found => found
    | found => found
  | _ => none

/-- Takes a distance from universal time off the front. -/
def offset : List Char → Option (List Char)
  | [] => some []
  | ['Z'] => some []
  | ['z'] => some []
  | c :: rest =>
    if c = '+' ∨ c = '-' then
      match upTo 23 rest with
      | some (':' :: rest) => upTo 59 rest
      | _ => none
    else none

/-- Whether a word is a date, a time of day, or both. -/
def isMoment (cs : List Char) : Bool :=
  match date cs with
  | some [] => true
  | some (c :: rest) =>
    (c == 'T' || c == 't' || c == ' ') && ((clock rest).bind offset) == some []
  | none => clock cs == some []

/-! ### Bare values -/

/-- What a bare word means. -/
def bare? (cs : List Char) : Option Document :=
  if cs = ['t', 'r', 'u', 'e'] then some (.bool true)
  else if cs = ['f', 'a', 'l', 's', 'e'] then some (.bool false)
  else
    match integer? cs with
    | some n => some (.int n)
    | none =>
      match float? cs with
      | some d => some (.number d)
      | none => if isMoment cs then some (.moment (String.ofList cs)) else none

end Drafting.Toml
