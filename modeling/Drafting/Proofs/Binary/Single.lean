import Mathlib
import Drafting.Config.Validate
import Drafting.Proofs.Binary.Unpacked
import Drafting.Proofs.Scalar.Lengths
import Drafting.Scalar.Binary32

/-!
The arithmetic of 32 bits.

Numbers are compared, added and subtracted through what they count for: the multiple of the least
positive number that they stand for.

* `count`: that multiple; `ofSingle_eq` ties it to the rational a number stands for.
* `lt_iff`, `le_iff`, `count_add`, `count_sub`: comparing and rounding.
* `instLengths`: the numbers of 32 bits have the laws of lengths.
* `Resolves`: a distance is large enough to show at a coordinate.  There it is not absorbed
  (`lt_add_of_resolves`), it outlives a translation (`add_lt_add_of_resolves`) and keeps neighbours
  apart (`not_sub_lt_of_resolves`).
-/

namespace Drafting.Binary32

open Drafting.Binary Float.Model Float.Model.UnpackedFloat

/-! ### Counting -/

/-- What a number counts for, in units of the least positive one. -/
def count (x : Float32) : ℤ := weight x.toModel.unpack

/-- Whether a pattern stands for a number, be it infinite. -/
def IsNumber (x : Float32) : Prop := x.toModel.unpack ≠ .notANumber

lemma packable (x : Float32) : Packable x.toModel.unpack := packable_unpack _

lemma isNaN_iff {x : Float32} : x.isNaN = true ↔ ¬ IsNumber x := by
  change x.toModel.unpack.isNaN = true ↔ _
  rw [UnpackedFloat.isNaN_iff, IsNumber, not_not]

/-- A finite number lies within the range. -/
lemma finite_iff {x : Float32} :
    x.isFinite = true ↔ IsNumber x ∧ (count x).natAbs < limit := by
  change x.toModel.unpack.isFinite = true ↔ _
  have hpos := limit_pos
  rw [IsNumber, count]
  have hpackable := packable x
  generalize x.toModel.unpack = u at hpackable ⊢
  cases u with
  | notANumber => simp [UnpackedFloat.isFinite]
  | infinity s =>
      cases s <;> simp [UnpackedFloat.isFinite, weight, Sign.apply, infinite] <;> omega
  | zero s => simp [UnpackedFloat.isFinite, weight, hpos]
  | finite s m e hm => simpa [UnpackedFloat.isFinite] using natAbs_weight_lt hpackable (by simp)

lemma compare_of_isNumber {x y : Float32} (hx : IsNumber x) (hy : IsNumber y) :
    UnpackedFloat.compare x.toModel.unpack y.toModel.unpack = some (compare (count x) (count y)) :=
  compare_eq (packable x) (packable y) hx hy

lemma compare_of_not_isNumber {x y : Float32} (h : ¬ (IsNumber x ∧ IsNumber y)) :
    UnpackedFloat.compare x.toModel.unpack y.toModel.unpack = none := by
  simp only [IsNumber] at h
  generalize x.toModel.unpack = u at h ⊢
  generalize y.toModel.unpack = v at h ⊢
  cases u <;> cases v <;> simp_all [UnpackedFloat.compare]

/-- The order of numbers is that of what they count for. -/
lemma lt_iff {x y : Float32} : x < y ↔ IsNumber x ∧ IsNumber y ∧ count x < count y := by
  change decide (UnpackedFloat.lt x.toModel.unpack y.toModel.unpack = true) = true ↔ _
  rw [decide_eq_true_iff, UnpackedFloat.lt]
  by_cases h : IsNumber x ∧ IsNumber y
  · simp [compare_of_isNumber h.1 h.2, h.1, h.2, compare_lt_iff_lt]
  · simp [compare_of_not_isNumber h]
    tauto

lemma le_iff {x y : Float32} : x ≤ y ↔ IsNumber x ∧ IsNumber y ∧ count x ≤ count y := by
  change decide (UnpackedFloat.le x.toModel.unpack y.toModel.unpack = true) = true ↔ _
  rw [decide_eq_true_iff, UnpackedFloat.le]
  by_cases h : IsNumber x ∧ IsNumber y
  · simp [compare_of_isNumber h.1 h.2, h.1, h.2, Std.isLE_compare]
  · simp [compare_of_not_isNumber h]
    tauto

lemma isNumber_zero : IsNumber 0 := by
  intro h
  cases h

lemma count_zero : count 0 = 0 := rfl

lemma nonneg_iff {x : Float32} : 0 ≤ x ↔ IsNumber x ∧ 0 ≤ count x := by
  rw [le_iff, count_zero]
  exact and_iff_right isNumber_zero

/-! ### Sums -/

lemma unpack_add (x y : Float32) : (x + y).toModel.unpack =
    kept (UnpackedFloat.add .binary32 x.toModel.unpack y.toModel.unpack) := rfl

lemma unpack_sub (x y : Float32) : (x - y).toModel.unpack =
    kept (UnpackedFloat.add .binary32 x.toModel.unpack y.toModel.unpack.neg) := by
  rw [← sub_eq_add_neg]
  rfl

/-- A sum that is a number is the one nearest to the exact sum. -/
lemma count_add {x y : Float32} (h : IsNumber (x + y)) :
    count (x + y) = settle (count x + count y) := by
  rw [IsNumber, unpack_add] at h
  rw [count, unpack_add]
  exact (kept_add (packable x) (packable y) (summable_of_kept_add h)).2

/-- A difference that is a number is the one nearest to the exact difference. -/
lemma count_sub {x y : Float32} (h : IsNumber (x - y)) :
    count (x - y) = settle (count x - count y) := by
  rw [IsNumber, unpack_sub] at h
  rw [count, unpack_sub, (kept_add (packable x) (packable_neg (packable y))
    (summable_of_kept_add h)).2, weight_neg, Int.sub_eq_add_neg]
  rfl

/-- Two numbers that are not negative have a sum. -/
lemma isNumber_add {x y : Float32} (hx : 0 ≤ x) (hy : 0 ≤ y) : IsNumber (x + y) := by
  rw [nonneg_iff] at hx hy
  have hpositive : ∀ {z : Float32}, 0 ≤ count z → ∀ s, z.toModel.unpack = .infinity s →
      s = .positive := by
    intro z hz s hs
    rw [count, hs] at hz
    cases s with
    | positive => rfl
    | negative =>
        have hlimit := limit_pos
        simp only [weight, Sign.apply, infinite] at hz
        omega
  rw [IsNumber, unpack_add]
  refine (kept_add (packable x) (packable y) ⟨hx.1, hy.1, fun s s' hs hs' => ?_⟩).1
  rw [hpositive hx.2 s hs, hpositive hy.2 s' hs']

lemma settle_count (x : Float32) : settle (count x) = count x := settle_weight (packable x)

/-! ### Halves and doubles -/

lemma nonneg_cases {x : Float32} (hx : 0 ≤ x) :
    (∃ s, x.toModel.unpack = .zero s) ∨ x.toModel.unpack = .infinity .positive ∨
      ∃ m e hm, x.toModel.unpack = .finite .positive m e hm := by
  rw [nonneg_iff, IsNumber, count] at hx
  generalize x.toModel.unpack = u at hx ⊢
  obtain ⟨hnumber, hnonneg⟩ := hx
  have hlimit := limit_pos
  cases u with
  | notANumber => exact absurd rfl hnumber
  | zero s => exact Or.inl ⟨s, rfl⟩
  | infinity s =>
      cases s with
      | positive => exact Or.inr (Or.inl rfl)
      | negative =>
          simp only [weight, Sign.apply, infinite] at hnonneg
          omega
  | finite s m e hm =>
      cases s with
      | positive => exact Or.inr (Or.inr ⟨m, e, hm, rfl⟩)
      | negative => exact absurd (weight_negative_neg hm) (not_lt.mpr hnonneg)

lemma kept_zero_nonneg (s : Sign) : kept (.zero s) ≠ .notANumber ∧ 0 ≤ weight (kept (.zero s)) := by
  rw [kept_eq (show Packable (.zero s) from trivial)]
  exact ⟨by simp, Int.le_refl _⟩

lemma kept_infinity_nonneg :
    kept (.infinity .positive) ≠ .notANumber ∧ 0 ≤ weight (kept (.infinity .positive)) := by
  rw [kept_eq (show Packable (.infinity .positive) from trivial)]
  exact ⟨by simp, Int.natCast_nonneg infinite⟩

lemma half_nonneg {x : Float32} (hx : 0 ≤ x) : 0 ≤ x / 2 := by
  have hkept : (x / 2).toModel.unpack = kept (UnpackedFloat.div .binary32 x.toModel.unpack
      (.finite .positive (2 ^ 23) (-22) (Nat.two_pow_pos 23))) := rfl
  rw [nonneg_iff, IsNumber, count, hkept]
  obtain ⟨s, h⟩ | h | ⟨m, e, hm, h⟩ := nonneg_cases hx
  · rw [h, UnpackedFloat.div]
    exact kept_zero_nonneg _
  · rw [h, UnpackedFloat.div]
    exact kept_infinity_nonneg
  · rw [h, UnpackedFloat.div]
    exact kept_roundWithAccuracy_positive _ _ _

lemma twice_nonneg {x : Float32} (hx : 0 ≤ x) : 0 ≤ 2 * x := by
  have hkept : (2 * x).toModel.unpack = kept (UnpackedFloat.mul .binary32
      (.finite .positive (2 ^ 23) (-22) (Nat.two_pow_pos 23)) x.toModel.unpack) := rfl
  rw [nonneg_iff, IsNumber, count, hkept]
  obtain ⟨s, h⟩ | h | ⟨m, e, hm, h⟩ := nonneg_cases hx
  · rw [h, UnpackedFloat.mul]
    exact kept_zero_nonneg _
  · rw [h, UnpackedFloat.mul]
    exact kept_infinity_nonneg
  · rw [h, UnpackedFloat.mul]
    exact kept_roundWithAccuracy_positive _ _ _

/-! ### Lengths -/

lemma le_max_left {x : Float32} (y : Float32) (hx : 0 ≤ x) : x ≤ Binary32.max x y := by
  have hnumber := (nonneg_iff.mp hx).1
  rw [Binary32.max, if_neg (by rw [isNaN_iff, not_not]; exact hnumber)]
  split_ifs with hy hlt
  · exact le_iff.mpr ⟨hnumber, hnumber, Int.le_refl _⟩
  · obtain ⟨hnx, hny, hcount⟩ := lt_iff.mp hlt
    exact le_iff.mpr ⟨hnx, hny, hcount.le⟩
  · exact le_iff.mpr ⟨hnumber, hnumber, Int.le_refl _⟩

instance instLengths : Lengths Float32 where
  le_refl {x} hx := by
    have hnumber := (nonneg_iff.mp hx).1
    exact le_iff.mpr ⟨hnumber, hnumber, Int.le_refl _⟩
  zero_le_zero := le_iff.mpr ⟨isNumber_zero, isNumber_zero, Int.le_refl _⟩
  le_of_lt h := by
    obtain ⟨hx, hy, hlt⟩ := lt_iff.mp h
    exact le_iff.mpr ⟨hx, hy, hlt.le⟩
  not_le_of_lt h h' := absurd (le_iff.mp h').2.2 (not_le.mpr (lt_iff.mp h).2.2)
  not_lt_of_le h h' := absurd (le_iff.mp h).2.2 (not_le.mpr (lt_iff.mp h').2.2)
  le_trans h h' := by
    obtain ⟨hx, -, hle⟩ := le_iff.mp h
    obtain ⟨-, hz, hle'⟩ := le_iff.mp h'
    exact le_iff.mpr ⟨hx, hz, hle.trans hle'⟩
  lt_of_lt_of_le h h' := by
    obtain ⟨hx, -, hlt⟩ := lt_iff.mp h
    obtain ⟨-, hz, hle⟩ := le_iff.mp h'
    exact lt_iff.mpr ⟨hx, hz, hlt.trans_le hle⟩
  le_add {x y} hx hy := by
    have hnumber := isNumber_add hx hy
    refine le_iff.mpr ⟨(nonneg_iff.mp hx).1, hnumber, ?_⟩
    have hcount := (nonneg_iff.mp hy).2
    calc count x = settle (count x) := (settle_count x).symm
      _ ≤ settle (count x + count y) := settle_mono (by omega)
      _ = count (x + y) := (count_add hnumber).symm
  add_le_add_right {x y z} hx hle hz := by
    have hxy := (le_iff.mp hle).2.2
    have hy : 0 ≤ y := nonneg_iff.mpr ⟨(le_iff.mp hle).2.1, (nonneg_iff.mp hx).2.trans hxy⟩
    have hsum := isNumber_add hx hz
    have hsum' := isNumber_add hy hz
    refine le_iff.mpr ⟨hsum, hsum', ?_⟩
    rw [count_add hsum, count_add hsum']
    exact settle_mono (by omega)
  le_max_left y hx := le_max_left y hx
  half_nonneg hx := half_nonneg hx
  twice_nonneg hx := twice_nonneg hx

instance instSignedScalar : SignedScalar Float32 where
  not_nonneg_iff {x} hx := by
    have hnumber : IsNumber x := (finite_iff.mp hx).1
    change ¬ (0 : Float32) ≤ x ↔ x < 0
    rw [nonneg_iff, lt_iff, count_zero]
    simp [hnumber, isNumber_zero]

/-! ### Exact values -/

lemma twoPow_eq (k : ℤ) : twoPow k = 2 ^ k := by
  rw [twoPow, Rat.mkRat_eq_div]
  rcases Int.le_total 0 k with hk | hk
  · obtain ⟨n, rfl⟩ := Int.eq_ofNat_of_zero_le hk
    simp
  · obtain ⟨n, rfl⟩ := Int.exists_eq_neg_ofNat hk
    simp

lemma toNat_unpackMantissa (b : BitVec 32) :
    (@unpackMantissa .binary32 b).toNat = b.toNat % 2 ^ 23 := by
  simp [unpackMantissa, BitVec.extractLsb_toNat]

lemma toNat_unpackExponent (b : BitVec 32) :
    (@unpackExponent .binary32 b).toNat = b.toNat / 2 ^ 23 % 2 ^ 8 := by
  simp [unpackExponent, BitVec.extractLsb_toNat, Nat.shiftRight_eq_div_pow]

lemma ofBitVec_unpackSign (b : BitVec 32) : Sign.ofBitVec (@unpackSign .binary32 b) =
    if b.toNat < 2 ^ 31 then .positive else .negative := by
  have hlt : b.toNat < 2 ^ 32 := b.isLt
  have htoNat : (@unpackSign .binary32 b).toNat = b.toNat / 2 ^ 31 := by
    simp [unpackSign, BitVec.extractLsb_toNat, Nat.shiftRight_eq_div_pow]
    omega
  have hzero : @unpackSign .binary32 b = 0#1 ↔ b.toNat < 2 ^ 31 := by
    rw [← BitVec.toNat_inj, htoNat]
    change _ = 0 ↔ _
    omega
  simp only [Sign.ofBitVec, hzero]

lemma significand_single (n : ℕ) :
    single.significand n = if n / 2 ^ 23 = 0 then n else 2 ^ 23 + n % 2 ^ 23 := rfl

/-- What a finite pattern counts for. -/
lemma weight_unpack {b : BitVec 32} (h : (UnpackedFloat.unpack .binary32 b).isFinite = true) :
    weight (UnpackedFloat.unpack .binary32 b) = (Sign.ofBitVec (@unpackSign .binary32 b)).apply
      ((single.significand (b.toNat % 2 ^ 31) * 2 ^ (b.toNat % 2 ^ 31 / 2 ^ 23 - 1) : ℕ) : ℤ) := by
  have hexponent : (@unpackExponent .binary32 b).toNat = b.toNat % 2 ^ 31 / 2 ^ 23 := by
    rw [toNat_unpackExponent]
    omega
  have hmantissa : (@unpackMantissa .binary32 b).toNat = b.toNat % 2 ^ 31 % 2 ^ 23 := by
    rw [toNat_unpackMantissa]
    omega
  have hsplit := Nat.div_add_mod (b.toNat % 2 ^ 31) (2 ^ 23)
  rw [significand_single]
  generalize b.toNat % 2 ^ 31 = n at hexponent hmantissa hsplit ⊢
  simp only [UnpackedFloat.unpack, Format.exponentBias] at h ⊢
  split at h
  · split at h <;> simp [UnpackedFloat.isFinite] at h
  · next htop =>
    rw [if_neg htop]
    by_cases hzero : @unpackExponent .binary32 b = 0#8
    · rw [if_pos hzero]
      have hn : n / 2 ^ 23 = 0 := by rw [← hexponent, hzero]; rfl
      have hlow : (@unpackMantissa .binary32 b).toNat = n := by omega
      rw [if_pos hn, hn, ← hlow]
      split_ifs with hnone
      · rw [hnone]
        cases Sign.ofBitVec (@unpackSign .binary32 b) <;> rfl
      · rw [weight, hzero]
        rfl
    · rw [if_neg hzero]
      have hn : n / 2 ^ 23 ≠ 0 := fun hcon => hzero (BitVec.toNat_inj.mp (hexponent.trans hcon))
      rw [if_neg hn, weight, toNat_leading, hmantissa, hexponent]
      congr 4
      push_cast
      omega

lemma value_single (n : ℕ) :
    single.value n = ((single.significand n * 2 ^ (n / 2 ^ 23 - 1) : ℕ) : ℚ) / 2 ^ 149 := by
  have hunit : single.unitExponent n = ((n / 2 ^ 23 - 1 : ℕ) : ℤ) - 149 := by
    change -149 + ((n / 2 ^ 23 - 1 : ℕ) : ℤ) = _
    ring
  rw [Format.value, twoPow_eq, hunit, zpow_sub₀ two_ne_zero, zpow_natCast, Rat.mkRat_one]
  push_cast
  rw [mul_div_assoc]
  rfl

/-- A finite number stands for what it counts for. -/
lemma ofSingle_eq {x : Float32} (h : x.isFinite = true) : ofSingle x = count x / 2 ^ 149 := by
  have hweight : count x = (Sign.ofBitVec (@unpackSign .binary32 x.toModel.toBits.toBitVec)).apply
      ((single.significand (x.toBits.toNat % 2 ^ 31) *
        2 ^ (x.toBits.toNat % 2 ^ 31 / 2 ^ 23 - 1) : ℕ) : ℤ) := weight_unpack h
  have hsingle : ofSingle x = if x.toBits.toNat < 2 ^ 31 then single.value (x.toBits.toNat % 2 ^ 31)
      else -single.value (x.toBits.toNat % 2 ^ 31) := rfl
  have hbits : x.toModel.toBits.toBitVec.toNat = x.toBits.toNat := rfl
  rw [ofBitVec_unpackSign, hbits] at hweight
  rw [hsingle, hweight, value_single]
  split_ifs
  · simp only [Sign.apply, Int.cast_natCast]
  · simp only [Sign.apply, Int.cast_neg, Int.cast_natCast, neg_div]

/-! ### Resolution -/

/-- A distance is resolved at a coordinate that is finite and no farther out than `2 ^ 22` such
distances. -/
def Resolves (distance x : Float32) : Prop :=
  x.isFinite = true ∧ |ofSingle x| ≤ 2 ^ 22 * ofSingle distance

instance (distance x : Float32) : Decidable (Resolves distance x) :=
  inferInstanceAs (Decidable (_ ∧ _))

section Resolution

variable {a b c d e o : Float32}

lemma count_pos (he : IsPositive e) : 0 < count e := by
  have hlt := (lt_iff.mp he.2).2.2
  rwa [count_zero] at hlt

lemma Resolves.count_le (he : IsPositive e) (h : Resolves e c) :
    (count c).natAbs < limit ∧ ((count c).natAbs : ℤ) ≤ 2 ^ 22 * count e := by
  refine ⟨(finite_iff.mp h.1).2, ?_⟩
  have hle := h.2
  have hunit : (0 : ℚ) < 2 ^ 149 := by positivity
  rw [ofSingle_eq h.1, ofSingle_eq he.1, abs_div, abs_of_pos hunit, ← mul_div_assoc,
    div_le_div_iff_of_pos_right hunit] at hle
  rw [Int.natCast_natAbs]
  exact_mod_cast hle

/-- What is resolved at a coordinate is resolved nearer to the origin. -/
lemma Resolves.of_le (h : Resolves e d) (hc : 0 ≤ c) (hle : c ≤ d) : Resolves e c := by
  obtain ⟨-, hlimit⟩ := finite_iff.mp h.1
  obtain ⟨hnumber, hnonneg⟩ := nonneg_iff.mp hc
  have hcount := (le_iff.mp hle).2.2
  have hfinite : c.isFinite = true := finite_iff.mpr ⟨hnumber, by omega⟩
  refine ⟨hfinite, le_trans ?_ h.2⟩
  rw [ofSingle_eq hfinite, ofSingle_eq h.1, abs_div, abs_div]
  refine div_le_div_of_nonneg_right ?_ (abs_nonneg _)
  exact_mod_cast abs_le_abs_of_nonneg hnonneg hcount

/-- A distance is not absorbed where it is resolved. -/
lemma lt_add_of_resolves (hc : 0 ≤ c) (he : IsPositive e) (h : Resolves e c) : c < c + e := by
  have hnumber := isNumber_add hc (Lengths.le_of_lt he.2)
  have hcount := (nonneg_iff.mp hc).2
  obtain ⟨hlimit, hle⟩ := h.count_le he
  refine lt_iff.mpr ⟨(nonneg_iff.mp hc).1, hnumber, ?_⟩
  rw [count_add hnumber]
  exact lt_settle_add hcount (by omega) (count_pos he) (by omega)

/-- What is not above another one is not above it after both are moved. -/
lemma not_add_lt_add (h : ¬ d ≤ c) : ¬ d + o < c + o := by
  intro hlt
  obtain ⟨hd, hc, hcount⟩ := lt_iff.mp hlt
  rw [count_add hd, count_add hc] at hcount
  rw [IsNumber, unpack_add] at hd hc
  refine h (le_iff.mpr ⟨(summable_of_kept_add hd).1, (summable_of_kept_add hc).1, ?_⟩)
  by_contra hcon
  exact absurd (settle_mono (show count c + count o ≤ count d + count o by omega))
    (not_le.mpr hcount)

/-- A distance remains where it is resolved before and after a translation. -/
lemma add_lt_add_of_resolves (hc : 0 ≤ c) (he : IsPositive e) (hgap : c + e ≤ d)
    (h : Resolves e c) (hd : d.isFinite = true) (hmoved : Resolves e (c + o))
    (hmoved' : Resolves e (d + o)) : c + o < d + o := by
  have hcount := (nonneg_iff.mp hc).2
  obtain ⟨-, hle⟩ := h.count_le he
  obtain ⟨hlimit, hmovedLe⟩ := hmoved.count_le he
  obtain ⟨hlimit', hmovedLe'⟩ := hmoved'.count_le he
  have hnumber := (finite_iff.mp hmoved.1).1
  have hnumber' := (finite_iff.mp hmoved'.1).1
  have hdLimit := (finite_iff.mp hd).2
  have hgapCount := (le_iff.mp hgap).2.2
  rw [count_add (isNumber_add hc (Lengths.le_of_lt he.2))] at hgapCount
  rw [count_add hnumber] at hlimit hmovedLe
  rw [count_add hnumber'] at hlimit' hmovedLe'
  refine lt_iff.mpr ⟨hnumber, hnumber', ?_⟩
  rw [count_add hnumber, count_add hnumber']
  exact settle_add_lt_settle_add hcount (count_pos he) hgapCount (by omega)
    (by omega) hlimit hlimit' hmovedLe hmovedLe'

/-- Two neighbours that were set a distance apart do not overlap where the distance is resolved. -/
lemma not_sub_lt_of_resolves (ha : 0 ≤ a) (hb : 0 ≤ b) (he : IsPositive e)
    (hgap : a + e + b ≤ c) (h : Resolves e c) : ¬ c - b < a := by
  intro hlt
  obtain ⟨hnumber, -, hcount⟩ := lt_iff.mp hlt
  have hsum := isNumber_add ha (Lengths.le_of_lt he.2)
  have hgapCount := (le_iff.mp hgap).2.2
  rw [count_add (isNumber_add (Lengths.add_nonneg ha (Lengths.le_of_lt he.2)) hb),
    count_add hsum] at hgapCount
  obtain ⟨hlimit, hle⟩ := h.count_le he
  have hnot := le_settle_sub (nonneg_iff.mp ha).2 (nonneg_iff.mp hb).2 (count_pos he).le
    (settle_count a) hgapCount (by omega) (by omega)
  rw [count_sub hnumber] at hcount
  omega

end Resolution

end Drafting.Binary32
