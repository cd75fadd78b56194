import Mathlib
import Drafting.Proofs.Binary.Single

/-!
Two zeros of 32 bits.

Adding nothing changes no number but one: the negative zero becomes the positive one.  A sum is the
negative zero only if both operands are.

* `eq_of_unpack`: a number is given by its sign, its mantissa and its exponent.
* `Plain`: adding nothing changes nothing; `plain_iff` says that only the
  negative zero is not plain.
* `Plain.add`, `Plain.add_left`, `Plain.sub`: what is computed from plain numbers is plain.
* `add_add_zero`: at a plain coordinate the two zeros make no difference.
* `sub_le_add`, `sub_nonneg`: what rounding leaves of the order of numbers that may be negative.
-/

namespace Drafting.Binary

open Float.Model Float.Model.UnpackedFloat

/-! ### Patterns -/

lemma toNat_eq_fields (b : BitVec 32) :
    b.toNat = (if b.toNat < 2 ^ 31 then 0 else 2 ^ 31) +
      2 ^ 23 * (@unpackExponent .binary32 b).toNat + (@unpackMantissa .binary32 b).toNat := by
  have hlt : b.toNat < 2 ^ 32 := b.isLt
  rw [Binary32.toNat_unpackExponent, Binary32.toNat_unpackMantissa]
  split_ifs <;> omega

/-- A pattern is given by its fields. -/
lemma eq_of_fields {b b' : BitVec 32}
    (hsign : Sign.ofBitVec (@unpackSign .binary32 b) = Sign.ofBitVec (@unpackSign .binary32 b'))
    (hexponent : @unpackExponent .binary32 b = @unpackExponent .binary32 b')
    (hmantissa : @unpackMantissa .binary32 b = @unpackMantissa .binary32 b') : b = b' := by
  have hiff : b.toNat < 2 ^ 31 ↔ b'.toNat < 2 ^ 31 := by
    rw [Binary32.ofBitVec_unpackSign, Binary32.ofBitVec_unpackSign] at hsign
    split_ifs at hsign with hb hb' hb'
    · exact iff_of_true hb hb'
    · exact iff_of_false hb hb'
  refine BitVec.eq_of_toNat_eq ?_
  rw [toNat_eq_fields b, toNat_eq_fields b', hexponent, hmantissa, if_congr hiff rfl rfl]

/-- A pattern that is taken apart and put together again. -/
lemma packComponents_fields {b : BitVec 32} {e : BitVec 8} {m : BitVec 23}
    (he : @unpackExponent .binary32 b = e) (hm : @unpackMantissa .binary32 b = m) :
    packComponents .binary32 (Sign.ofBitVec (@unpackSign .binary32 b)) e m = b := by
  refine eq_of_fields ?_ ?_ ?_
  · rw [unpackSign_packComponents, Sign.ofBitVec_toBitVec]
  · rw [unpackExponent_packComponents, he]
  · rw [unpackMantissa_packComponents, hm]

/-- The pattern of a finite number: the exponent is left out when the leading bit is. -/
lemma pack_finite (s : Sign) {m : ℕ} {e : ℤ} (hm : 0 < m) (h : Packable (.finite s m e hm)) :
    UnpackedFloat.pack .binary32 (.finite s m e hm) = packComponents .binary32 s
      (if 2 ^ 23 ≤ m then BitVec.ofNat 8 (e + 150).toNat else 0#8) (BitVec.ofNat 23 m) := by
  obtain ⟨⟨hlt, he, -⟩, hrange⟩ := h
  have hnotTop : ¬ 2 ^ Format.binary32.exponentBits ≤ (e + 150).toNat + 1 := by
    change ¬ 2 ^ 8 ≤ _
    omega
  have hbias := biased_exponent e
  simp only [UnpackedFloat.pack, hbias, log2_succ_eq_iff hm hlt, if_neg hnotTop]
  split_ifs <;> rfl

/-- Packing what was unpacked yields the same pattern. -/
lemma pack_unpack {b : BitVec 32} (hb : Format.binary32.Valid b) :
    UnpackedFloat.pack .binary32 (UnpackedFloat.unpack .binary32 b) = b := by
  have hpackable := packable_unpack b
  have hmantissa : (@unpackMantissa .binary32 b).toNat < 2 ^ 23 :=
    (@unpackMantissa .binary32 b).isLt
  simp only [UnpackedFloat.unpack] at hpackable ⊢
  split_ifs at hpackable ⊢ with htop hinfinite hzero hnone
  · exact packComponents_fields htop hinfinite
  · exact (hb.eq_packedNaN htop hinfinite).symm
  · exact packComponents_fields hzero hnone
  · rw [pack_finite _ _ hpackable, if_neg (by omega)]
    refine packComponents_fields hzero ?_
    rw [BitVec.ofNat_toNat, BitVec.setWidth_eq]
  · have hleading := toNat_leading (@unpackMantissa .binary32 b)
    rw [pack_finite _ _ hpackable, if_pos (by omega)]
    refine packComponents_fields ?_ ?_
    · have hexponent : ((@unpackExponent .binary32 b).toNat : ℤ) -
          (Format.binary32.exponentBias + Format.binary32.mantissaBitsWithoutImplicit) + 150 =
          (@unpackExponent .binary32 b).toNat := by
        simp only [Format.exponentBias]
        norm_num
      rw [hexponent, Int.toNat_natCast, BitVec.ofNat_toNat, BitVec.setWidth_eq]
    · rw [← BitVec.toNat_inj, hleading, BitVec.toNat_ofNat]
      change _ = _ % 2 ^ 23
      omega

/-! ### Sums that are zero -/

lemma settle_eq_zero_iff {n : ℤ} : settle n = 0 ↔ n = 0 := by
  have hone : settle 1 = 1 := by
    rw [show (1 : ℤ) = (1 : ℕ) from rfl, settle_natCast, settleNat, nearest_of_lt (by norm_num),
      if_pos]
    rw [limit]
    norm_num
  refine ⟨fun h => ?_, fun h => by rw [h, settle_zero]⟩
  rcases lt_trichotomy n 0 with hn | hn | hn
  · have hle := settle_mono (show n ≤ -1 by omega)
    rw [settle_neg, hone] at hle
    omega
  · exact hn
  · have hle := settle_mono (show 1 ≤ n by omega)
    rw [hone] at hle
    omega

/-- An exact sum that is nothing is the positive zero. -/
lemma kept_normalize_ne (n : ℤ) {e : ℤ} (he : -149 ≤ e) :
    kept (UnpackedFloat.normalize .binary32 n e .positive) ≠ .zero .negative := by
  intro h
  have hweight := (kept_normalize n he .positive).2
  rw [h, weight, eq_comm, settle_eq_zero_iff, mul_eq_zero] at hweight
  have hn : n = 0 := hweight.resolve_right (by positivity)
  rw [hn, UnpackedFloat.normalize, compare_eq_iff_eq.mpr rfl,
    kept_eq (show Packable (.zero .positive) from trivial)] at h
  cases h

/-- **A sum is the negative zero only if both operands are.** -/
lemma kept_add_eq_negativeZero {x y : UnpackedFloat} (hx : Packable x) (hy : Packable y)
    (h : kept (UnpackedFloat.add .binary32 x y) = .zero .negative) :
    x = .zero .negative ∧ y = .zero .negative := by
  have hsum : Summable x y := summable_of_kept_add (by rw [h]; simp)
  cases x with
  | notANumber => exact absurd rfl hsum.1
  | infinity s =>
      cases y with
      | notANumber => exact absurd rfl hsum.2.1
      | infinity s' =>
          rw [UnpackedFloat.add, if_pos (by simp [hsum.2.2 s s' rfl rfl]), kept_eq hx] at h
          cases h
      | zero s' => cases (kept_eq hx).symm.trans h
      | finite s' m e hm => cases (kept_eq hx).symm.trans h
  | zero s =>
      cases y with
      | notANumber => exact absurd rfl hsum.2.1
      | infinity s' => cases (kept_eq hy).symm.trans h
      | zero s' =>
          rw [UnpackedFloat.add] at h
          split_ifs at h with hsame
          · rw [kept_eq hx] at h
            rw [beq_iff_eq] at hsame
            exact ⟨h, hsame ▸ h⟩
          · cases (kept_eq (show Packable (.zero .positive) from trivial)).symm.trans h
      | finite s' m e hm => cases (kept_eq hy).symm.trans h
  | finite s m e hm =>
      cases y with
      | notANumber => exact absurd rfl hsum.2.1
      | infinity s' => cases (kept_eq hy).symm.trans h
      | zero s' => cases (kept_eq hx).symm.trans h
      | finite s' m' e' hm' => exact absurd h (kept_normalize_ne _ (le_min hx.1.2.1 hy.1.2.1))

end Drafting.Binary

namespace Drafting.Binary32

open Drafting.Binary Float.Model Float.Model.UnpackedFloat

variable {x y z : Float32}

/-- A number is given by its sign, its mantissa and its exponent. -/
lemma eq_of_unpack (h : x.toModel.unpack = y.toModel.unpack) : x = y := by
  obtain ⟨⟨b, hb⟩⟩ := x
  obtain ⟨⟨b', hb'⟩⟩ := y
  have hbits : b.toBitVec = b'.toBitVec := by
    rw [← pack_unpack hb, ← pack_unpack hb']
    exact congrArg (UnpackedFloat.pack .binary32) h
  obtain rfl := UInt32.toBitVec_inj.mp hbits
  rfl

/-! ### Plain numbers -/

/-- Adding nothing changes nothing. -/
def Plain (x : Float32) : Prop := x + 0 = x

/-- Adding the negative zero changes nothing at all. -/
lemma kept_add_negativeZero (x : Float32) :
    kept (UnpackedFloat.add .binary32 x.toModel.unpack (.zero .negative)) = x.toModel.unpack := by
  have hx := packable x
  generalize x.toModel.unpack = u at hx ⊢
  cases u with
  | zero s => cases s <;> exact kept_eq trivial
  | _ => exact kept_eq hx

lemma add_of_negativeZero (hy : y.toModel.unpack = .zero .negative) : x + y = x := by
  refine eq_of_unpack ?_
  rw [unpack_add, hy, kept_add_negativeZero]

/-- To take away nothing is to add the negative zero. -/
lemma sub_zero (x : Float32) : x - 0 = x := by
  refine eq_of_unpack ?_
  rw [unpack_sub]
  exact kept_add_negativeZero x

/-- Only the negative zero is not plain. -/
lemma plain_iff : Plain x ↔ x.toModel.unpack ≠ .zero .negative := by
  have hzero : (0 : Float32).toModel.unpack = .zero .positive := rfl
  refine ⟨fun h hx => ?_, fun h => eq_of_unpack ?_⟩
  · have hsum := kept_add_eq_negativeZero (packable x) (packable 0)
      ((unpack_add x 0).symm.trans ((congrArg (·.toModel.unpack) h).trans hx))
    rw [hzero] at hsum
    cases hsum.2
  · rw [unpack_add, hzero]
    have hx := packable x
    generalize x.toModel.unpack = u at h hx ⊢
    cases u with
    | zero s =>
        cases s with
        | positive => exact kept_eq hx
        | negative => exact absurd rfl h
    | _ => exact kept_eq hx

lemma plain_zero : Plain 0 := plain_iff.mpr (by intro h; cases h)

lemma plain_of_pos (hx : 0 < x) : Plain x := by
  rw [plain_iff]
  intro h
  have hcount := (lt_iff.mp hx).2.2
  rw [count_zero, count, h] at hcount
  exact absurd hcount (lt_irrefl 0)

/-- A sum with a plain number is plain. -/
lemma Plain.add (hx : Plain x) (y : Float32) : Plain (x + y) := by
  rw [plain_iff] at hx ⊢
  intro h
  exact hx (kept_add_eq_negativeZero (packable x) (packable y) h).1

lemma Plain.add_left (hy : Plain y) (x : Float32) : Plain (x + y) := by
  rw [plain_iff] at hy ⊢
  intro h
  exact hy (kept_add_eq_negativeZero (packable x) (packable y) h).2

lemma Plain.sub (hx : Plain x) (y : Float32) : Plain (x - y) := by
  rw [plain_iff] at hx ⊢
  intro h
  rw [unpack_sub] at h
  exact hx (kept_add_eq_negativeZero (packable x) (packable_neg (packable y)) h).1

/-- **At a plain coordinate the two zeros make no difference.** -/
lemma add_add_zero (hx : Plain x) (y : Float32) : x + (y + 0) = x + y := by
  by_cases hy : Plain y
  · rw [hy]
  · rw [plain_iff, not_not] at hy
    have hzero : y + 0 = 0 := by
      refine eq_of_unpack ?_
      rw [unpack_add, hy]
      exact kept_eq trivial
    rw [hzero, add_of_negativeZero hy, hx]

/-! ### Numbers and their order -/

lemma IsNumber.of_add (h : IsNumber (x + y)) : IsNumber x ∧ IsNumber y := by
  rw [IsNumber, unpack_add] at h
  exact ⟨(summable_of_kept_add h).1, (summable_of_kept_add h).2.1⟩

lemma IsNumber.of_sub (h : IsNumber (x - y)) : IsNumber x ∧ IsNumber y := by
  rw [IsNumber, unpack_sub] at h
  obtain ⟨hx, hy, -⟩ := summable_of_kept_add h
  refine ⟨hx, fun hnone => hy ?_⟩
  rw [hnone]
  rfl

lemma IsNumber.of_half (h : IsNumber (x / 2)) : IsNumber x := by
  have hkept : (x / 2).toModel.unpack = kept (UnpackedFloat.div .binary32 x.toModel.unpack
      (.finite .positive (2 ^ 23) (-22) (Nat.two_pow_pos 23))) := rfl
  intro hx
  rw [IsNumber, hkept, hx] at h
  exact h (kept_eq (show Packable .notANumber from trivial))

lemma IsNumber.add_zero (h : IsNumber x) : IsNumber (x + 0) := by
  by_cases hx : Plain x
  · rwa [hx]
  · rw [plain_iff, not_not] at hx
    exact isNumber_add (nonneg_iff.mpr ⟨h, by rw [count, hx]; exact Int.le_refl _⟩)
      Lengths.zero_le_zero

/-- The sides of a box around a coordinate. -/
lemma sub_le_add (hy : 0 ≤ y) (hsub : IsNumber (x - y)) (hadd : IsNumber (x + y)) :
    x - y ≤ x + y := by
  have hcount := (nonneg_iff.mp hy).2
  refine le_iff.mpr ⟨hsub, hadd, ?_⟩
  rw [count_sub hsub, count_add hadd]
  exact settle_mono (by omega)

/-- The extent of a box. -/
lemma sub_nonneg (hle : x ≤ y) (hnumber : IsNumber (y - x)) : 0 ≤ y - x := by
  have hcount := (le_iff.mp hle).2.2
  refine nonneg_iff.mpr ⟨hnumber, ?_⟩
  rw [count_sub hnumber]
  exact settle_nonneg (by omega)

/-- A length grows by another one that is added in front of it. -/
lemma le_add_left (hx : 0 ≤ x) (hy : 0 ≤ y) : y ≤ x + y := by
  have hnumber := isNumber_add hx hy
  have hcount := (nonneg_iff.mp hx).2
  refine le_iff.mpr ⟨(nonneg_iff.mp hy).1, hnumber, ?_⟩
  calc count y = settle (count y) := (settle_count y).symm
    _ ≤ settle (count x + count y) := settle_mono (by omega)
    _ = count (x + y) := (count_add hnumber).symm

/-! ### The larger and the smaller of two numbers -/

lemma max_eq_left (hx : 0 ≤ x) : Binary32.max x 0 = x := by
  obtain ⟨hnumber, hcount⟩ := nonneg_iff.mp hx
  rw [Binary32.max, if_neg (by rw [isNaN_iff, not_not]; exact hnumber), if_neg (by decide), if_neg]
  rw [lt_iff, count_zero]
  omega

/-- The larger one of a plain length and another number. -/
lemma Plain.max (hx : Plain x) (hlength : 0 ≤ x) (y : Float32) : Plain (Binary32.max x y) := by
  rw [Binary32.max, if_neg (by rw [isNaN_iff, not_not]; exact (nonneg_iff.mp hlength).1)]
  split_ifs with hy hlt
  · exact hx
  · refine plain_of_pos (lt_iff.mpr ⟨isNumber_zero, (lt_iff.mp hlt).2.1, ?_⟩)
    exact (nonneg_iff.mp hlength).2.trans_lt (lt_iff.mp hlt).2.2
  · exact hx

/-- The smaller one of the left sides of two boxes and the larger one of their right sides. -/
lemma min_le_max {x' y' : Float32} (h : x ≤ y) (h' : x' ≤ y') :
    Binary32.min x x' ≤ Binary32.max y y' := by
  obtain ⟨hx, hy, hle⟩ := le_iff.mp h
  obtain ⟨hx', hy', hle'⟩ := le_iff.mp h'
  have hmin : IsNumber (Binary32.min x x') ∧ count (Binary32.min x x') ≤ count x := by
    rw [Binary32.min, if_neg (by rwa [isNaN_iff, not_not]), if_neg (by rwa [isNaN_iff, not_not])]
    split_ifs with hlt
    · exact ⟨hx', (lt_iff.mp hlt).2.2.le⟩
    · exact ⟨hx, Int.le_refl _⟩
  have hmax : IsNumber (Binary32.max y y') ∧ count y ≤ count (Binary32.max y y') := by
    rw [Binary32.max, if_neg (by rwa [isNaN_iff, not_not]), if_neg (by rwa [isNaN_iff, not_not])]
    split_ifs with hlt
    · exact ⟨hy', (lt_iff.mp hlt).2.2.le⟩
    · exact ⟨hy, Int.le_refl _⟩
  exact le_iff.mpr ⟨hmin.1, hmax.1, hmin.2.trans (hle.trans hmax.2)⟩

lemma min_of_not_isNumber (hx : ¬ IsNumber x) (y : Float32) : Binary32.min x y = y := by
  rw [Binary32.min, if_pos (isNaN_iff.mpr hx)]

lemma min_of_not_isNumber_right (hx : IsNumber x) (hy : ¬ IsNumber y) : Binary32.min x y = x := by
  rw [Binary32.min, if_neg (by rwa [isNaN_iff, not_not]), if_pos (isNaN_iff.mpr hy)]

lemma max_of_not_isNumber (hx : ¬ IsNumber x) (y : Float32) : Binary32.max x y = y := by
  rw [Binary32.max, if_pos (isNaN_iff.mpr hx)]

lemma max_of_not_isNumber_right (hx : IsNumber x) (hy : ¬ IsNumber y) : Binary32.max x y = x := by
  rw [Binary32.max, if_neg (by rwa [isNaN_iff, not_not]), if_pos (isNaN_iff.mpr hy)]

end Drafting.Binary32
