import Mathlib
import Drafting.Proofs.Binary.Rounding

/-!
Numbers of 32 bits, taken apart.

A machine number is unpacked into a sign, a mantissa and an exponent, worked on, rounded and packed
again.  All of it is read off one integer, the multiple of the least positive number that a number
stands for.

* `weight`: that integer; an infinity counts for more than any sum of finite numbers.
* `Packable`: what unpacking yields: 24 significant bits and an exponent within the range.
* `compare_eq`: numbers are compared by what they count for.
* `kept_add`: a sum is the number nearest to the exact sum.
* `kept_roundWithAccuracy_positive`: rounding makes nothing negative.
-/

namespace Drafting.Binary

open Float.Model Float.Model.UnpackedFloat

/-! ### Unpacked numbers -/

/-- What a number counts for, in units of the least positive one. -/
def weight : UnpackedFloat → ℤ
  | .notANumber => 0
  | .infinity s => s.apply infinite
  | .zero _ => 0
  | .finite s m e _ => s.apply ↑(m * 2 ^ (e + 149).toNat)

/-- A number of 24 significant bits, of which the leading one is set unless the
exponent is the least one. -/
def Rounded : UnpackedFloat → Prop
  | .finite _ m e _ => m < 2 ^ 24 ∧ -149 ≤ e ∧ (e = -149 ∨ 2 ^ 23 ≤ m)
  | _ => True

/-- A rounded number within the range of exponents. -/
def Packable : UnpackedFloat → Prop
  | .finite s m e h => Rounded (.finite s m e h) ∧ e ≤ 104
  | _ => True

/-! ### Rounding -/

lemma shiftRight_succ (em : ExtendedMantissa) (k : ℕ) :
    em >>> (k + 1) = (em >>> k).shiftRightOne := rfl

/-- The kept bits of a shifted mantissa are the quotient, and the two residual bits tell the
remainder from zero and from a half. -/
lemma shiftRight_spec (m k : ℕ) :
    ((⟨m, false, false⟩ : ExtendedMantissa) >>> k).mantissa = m / 2 ^ k ∧
      (((⟨m, false, false⟩ : ExtendedMantissa) >>> k).roundBit = true ↔
        2 ^ k ≤ 2 * (m % 2 ^ k)) ∧
      (((⟨m, false, false⟩ : ExtendedMantissa) >>> k).stickyBit = true ↔
        2 * (m % 2 ^ k) ≠ 0 ∧ 2 * (m % 2 ^ k) ≠ 2 ^ k) := by
  induction k with
  | zero =>
      have hzero : (⟨m, false, false⟩ : ExtendedMantissa) >>> 0 = ⟨m, false, false⟩ := rfl
      simp [hzero, Nat.mod_one]
  | succ k ih =>
      obtain ⟨hmantissa, hround, hsticky⟩ := ih
      have hlt := Nat.mod_lt m (Nat.two_pow_pos k)
      have hpow : 2 ^ (k + 1) = 2 * 2 ^ k := by rw [pow_succ, Nat.mul_comm]
      have hmod : m % (2 * 2 ^ k) = m % 2 ^ k + 2 ^ k * (m / 2 ^ k % 2) := by
        rw [← hpow, Nat.mod_pow_succ]
      rw [shiftRight_succ]
      simp only [ExtendedMantissa.shiftRightOne, hmantissa, bne_iff_ne, ne_eq, Bool.or_eq_true,
        hround, hsticky, hpow, hmod]
      refine ⟨by rw [Nat.div_div_eq_div_mul, Nat.mul_comm], ?_, ?_⟩
      · rcases Nat.mod_two_eq_zero_or_one (m / 2 ^ k) with h | h <;> rw [h] <;> omega
      · rcases Nat.mod_two_eq_zero_or_one (m / 2 ^ k) with h | h <;> rw [h] <;> omega

/-- Shifting a mantissa and rounding it by its residual bits rounds the quotient. -/
lemma roundedMantissa_shiftRight (m k : ℕ) :
    ((⟨m, false, false⟩ : ExtendedMantissa) >>> k).roundedMantissa = roundShift m k := by
  obtain ⟨hmantissa, hround, hsticky⟩ := shiftRight_spec m k
  generalize (⟨m, false, false⟩ : ExtendedMantissa) >>> k = em at hmantissa hround hsticky ⊢
  obtain ⟨mantissa, roundBit, stickyBit⟩ := em
  subst hmantissa
  have hlt := Nat.mod_lt m (Nat.two_pow_pos k)
  rw [roundShift]
  cases roundBit <;> cases stickyBit <;>
    simp only [Bool.false_eq_true, false_iff, true_iff, ne_eq, not_and, not_not]
      at hround hsticky <;>
    simp only [ExtendedMantissa.roundedMantissa, ExtendedMantissa.accuracy,
      Accuracy.roundToNearestEven] <;>
    split_ifs <;> omega

/-- The exponent of a number with given bits. -/
lemma targetExponent_eq (m : ℕ) (e : ℤ) :
    Format.binary32.targetExponent (totalExponent m e) = max (m.log2 + e - 23) (-149) := by
  simp only [Format.targetExponent, totalExponent, Format.mantissaBits, Format.minExponent]
  norm_num
  omega

/-- A mantissa of 24 bits stays as it is. -/
lemma shiftToTargetExponent_of_lt {m : ℕ} {e : ℤ} (hm : m < 2 ^ 24) (he : -149 ≤ e) :
    shiftToTargetExponent .binary32 m e .exact = (⟨m, false, false⟩, e) := by
  have hlog : m.log2 ≤ 23 := by
    rcases Nat.eq_zero_or_pos m with rfl | hpos
    · simp
    · exact Nat.lt_succ_iff.mp ((Nat.log2_lt hpos.ne').mpr hm)
  have hshift : (Format.binary32.targetExponent (totalExponent m e) - e).toNat = 0 := by
    rw [targetExponent_eq]
    omega
  simp only [shiftToTargetExponent, shiftToExponent, hshift, Nat.cast_zero, add_zero]
  rfl

/-- A mantissa that was rounded up to `2 ^ 24` loses its last bit. -/
lemma shiftToTargetExponent_carry {e : ℤ} (he : -149 ≤ e) :
    shiftToTargetExponent .binary32 (2 ^ 24) e .exact = (⟨2 ^ 23, false, false⟩, e + 1) := by
  have hshift : (Format.binary32.targetExponent (totalExponent (2 ^ 24) e) - e).toNat = 1 := by
    rw [targetExponent_eq, Nat.log2_two_pow]
    omega
  simp only [shiftToTargetExponent, shiftToExponent, hshift]
  rfl

/-- A mantissa shifted to 24 bits and rounded has no more of them, or is a power of two. -/
lemma roundShift_log2_bounds {m : ℕ} (hm : 0 < m) :
    0 < roundShift m (m.log2 - 23) ∧ roundShift m (m.log2 - 23) ≤ 2 ^ 24 ∧
      (23 ≤ m.log2 → 2 ^ 23 ≤ roundShift m (m.log2 - 23)) := by
  have hpos : 0 < 2 ^ (m.log2 - 23) := Nat.two_pow_pos _
  have hself : m < 2 ^ (m.log2 + 1) := Nat.lt_log2_self
  have hfloor := le_roundShift m (m.log2 - 23)
  have hceil := roundShift_le m (m.log2 - 23)
  have hquotient : m / 2 ^ (m.log2 - 23) < 2 ^ 24 := by
    rw [Nat.div_lt_iff_lt_mul hpos, ← pow_add]
    exact hself.trans_le (Nat.pow_le_pow_right (by norm_num) (by omega))
  have hleading : 23 ≤ m.log2 → 2 ^ 23 ≤ m / 2 ^ (m.log2 - 23) := fun h => by
    rw [Nat.le_div_iff_mul_le hpos, ← pow_add, Nat.add_sub_cancel' h]
    exact Nat.log2_self_le hm.ne'
  refine ⟨?_, by omega, fun h => (hleading h).trans hfloor⟩
  rcases Nat.lt_or_ge m.log2 23 with h | h
  · rw [Nat.sub_eq_zero_of_le h.le, roundShift_zero]
    exact hm
  · have := hleading h
    omega

/-- Rounding a number that is not too coarse. -/
lemma roundWithAccuracy_spec (s : Sign) {m : ℕ} {e : ℤ} (hm : 0 < m) (he : -149 ≤ e)
    (hle : 23 ≤ m.log2 ∨ e = -149) :
    ∃ m' e' hm', roundWithAccuracy .binary32 s m e .exact = .finite s m' e' hm' ∧
      Rounded (.finite s m' e' hm') ∧
      m' * 2 ^ (e' + 149).toNat = nearest (m * 2 ^ (e + 149).toNat) := by
  set k := m.log2 - 23 with hk
  set j := (e + 149).toNat with hj
  have hfirst : shiftToTargetExponent .binary32 m e .exact =
      ((⟨m, false, false⟩ : ExtendedMantissa) >>> k, e + k) := by
    have hshift : (Format.binary32.targetExponent (totalExponent m e) - e).toNat = k := by
      rw [targetExponent_eq]
      omega
    simp only [shiftToTargetExponent, shiftToExponent, hshift]
    rfl
  have hnearest : nearest (m * 2 ^ j) = roundShift m k * 2 ^ (k + j) := by
    refine nearest_mul_two_pow_eq ?_
    rw [excess, log2_mul_two_pow hm]
    omega
  have hexponent : (e + k + 149).toNat = k + j := by omega
  obtain ⟨hpos, hhigh, hlow⟩ := roundShift_log2_bounds hm
  rw [← hk] at hpos hhigh hlow
  simp only [roundWithAccuracy, hfirst, roundedMantissa_shiftRight, hnearest]
  rcases hhigh.lt_or_eq with hlt | hcarry
  · simp only [shiftToTargetExponent_of_lt hlt (show -149 ≤ e + k by omega)]
    refine ⟨_, _, hpos, dif_neg hpos.ne', ⟨hlt, by omega, ?_⟩, by rw [hexponent]⟩
    rcases Nat.lt_or_ge m.log2 23 with h | h
    · exact Or.inl (by omega)
    · exact Or.inr (hlow h)
  · simp only [hcarry, shiftToTargetExponent_carry (show -149 ≤ e + k by omega)]
    refine ⟨_, _, Nat.two_pow_pos 23, dif_neg (Nat.two_pow_pos 23).ne',
      ⟨by norm_num, by omega, Or.inr (le_refl _)⟩, ?_⟩
    rw [show (e + k + 1 + 149).toNat = k + j + 1 by omega]
    ring

/-- Rounding a number. -/
lemma round_spec (s : Sign) {m : ℕ} {e : ℤ} (hm : 0 < m) (he : -149 ≤ e) :
    ∃ m' e' hm', UnpackedFloat.round .binary32 s m e = .finite s m' e' hm' ∧
      Rounded (.finite s m' e' hm') ∧
      m' * 2 ^ (e' + 149).toNat = nearest (m * 2 ^ (e + 149).toNat) := by
  obtain ⟨i, hi⟩ :
      ∃ i, i = (e - Format.binary32.targetExponent (totalExponent m e)).toNat := ⟨_, rfl⟩
  have hround : UnpackedFloat.round .binary32 s m e =
      roundWithAccuracy .binary32 s (m * 2 ^ i) (e - i) .exact := by
    rw [UnpackedFloat.round, decreaseExponent, ← hi, Nat.shiftLeft_eq]
  rw [targetExponent_eq] at hi
  have hlog : (m * 2 ^ i).log2 = m.log2 + i := log2_mul_two_pow hm i
  have hsame : m * 2 ^ i * 2 ^ (e - i + 149).toNat = m * 2 ^ (e + 149).toNat := by
    rw [Nat.mul_assoc, ← pow_add]
    congr 2
    omega
  rw [hround, ← hsame]
  exact roundWithAccuracy_spec s (by positivity) (by omega) (by omega)

/-! ### Packing -/

lemma toNat_leading (m : BitVec 23) : (1#1 ++ m).toNat = 2 ^ 23 + m.toNat := by
  rw [BitVec.toNat_append, ← Nat.shiftLeft_add_eq_or_of_lt m.isLt]
  simp [Nat.shiftLeft_eq]

/-- The exponent of a whole mantissa, as it is stored. -/
lemma biased_exponent (e : ℤ) :
    e + Format.binary32.exponentBias + Format.binary32.mantissaBitsWithoutImplicit = e + 150 := by
  simp only [Format.exponentBias]
  norm_num
  omega

/-- A mantissa takes all bits when it has the leading one. -/
lemma log2_succ_eq_iff {m : ℕ} (hm : 0 < m) (hlt : m < 2 ^ 24) :
    m.log2 + 1 = Format.binary32.mantissaBits ↔ 2 ^ 23 ≤ m := by
  have hbits := (Nat.log2_lt hm.ne').mpr hlt
  rw [← Nat.le_log2 hm.ne']
  change m.log2 + 1 = 24 ↔ _
  omega

/-- A rounded number as it is kept: past the end of the range it is infinite. -/
lemma unpack_pack_finite (s : Sign) {m : ℕ} {e : ℤ} (hm : 0 < m)
    (h : Rounded (.finite s m e hm)) :
    UnpackedFloat.unpack .binary32 (UnpackedFloat.pack .binary32 (.finite s m e hm)) =
      if e ≤ 104 then .finite s m e hm else .infinity s := by
  obtain ⟨hlt, he, hleading⟩ := h
  have hbias := biased_exponent e
  simp only [UnpackedFloat.pack, hbias, log2_succ_eq_iff hm hlt]
  by_cases htop : 2 ^ 8 ≤ (e + 150).toNat + 1
  · rw [if_pos htop, if_neg (by omega)]
    simp [UnpackedFloat.unpack, packedInfinity]
  · rw [if_neg htop, if_pos (by omega : e ≤ 104)]
    split_ifs with hnormal
    · have hexponent : (BitVec.ofNat 8 (e + 150).toNat).toNat = (e + 150).toNat := by
        rw [BitVec.toNat_ofNat]
        omega
      have hnotTop : BitVec.ofNat 8 (e + 150).toNat ≠ -1#8 := by
        rw [ne_eq, ← BitVec.toNat_inj, hexponent]
        change ¬ (e + 150).toNat = 255
        omega
      have hnotZero : BitVec.ofNat 8 (e + 150).toNat ≠ 0#8 := by
        rw [ne_eq, ← BitVec.toNat_inj, hexponent]
        change ¬ (e + 150).toNat = 0
        omega
      have hmantissa : (1#1 ++ BitVec.ofNat 23 m).toNat = m := by
        rw [toNat_leading, BitVec.toNat_ofNat]
        omega
      simp only [UnpackedFloat.unpack, unpackSign_packComponents, Sign.ofBitVec_toBitVec,
        unpackExponent_packComponents, unpackMantissa_packComponents, hnotTop, hnotZero, if_false,
        hexponent, hmantissa, Format.exponentBias]
      congr 1
      norm_num
      omega
    · have hmantissa : (BitVec.ofNat 23 m).toNat = m := by
        rw [BitVec.toNat_ofNat]
        omega
      have hnotZero : BitVec.ofNat 23 m ≠ 0#23 := by
        rw [ne_eq, ← BitVec.toNat_inj, hmantissa]
        change ¬ m = 0
        omega
      have hnotTop : (0#8) ≠ -1#8 := by decide
      obtain rfl : e = -149 := by omega
      simp only [UnpackedFloat.unpack, unpackSign_packComponents, Sign.ofBitVec_toBitVec,
        unpackExponent_packComponents, unpackMantissa_packComponents, hnotTop, hnotZero, if_false,
        if_true, dite_false, hmantissa]
      rfl

lemma packable_unpack (b : BitVec Format.binary32.numBits) :
    Packable (UnpackedFloat.unpack .binary32 b) := by
  simp only [UnpackedFloat.unpack, Format.exponentBias]
  have hmantissa : (unpackMantissa b).toNat < 2 ^ 23 := (unpackMantissa b).isLt
  have hexponent : (unpackExponent b).toNat < 2 ^ 8 := (unpackExponent b).isLt
  split_ifs with htop hinfinite hzero hnonzero
  · trivial
  · trivial
  · trivial
  · simp only [hzero]
    exact ⟨⟨by omega, by norm_num, Or.inl (by norm_num)⟩, by norm_num⟩
  · have hnotTop : (unpackExponent b).toNat ≠ 255 := fun h => htop (BitVec.toNat_inj.mp h)
    have hnotZero : (unpackExponent b).toNat ≠ 0 := fun h => hzero (BitVec.toNat_inj.mp h)
    refine ⟨⟨?_, ?_, Or.inr ?_⟩, ?_⟩
    · rw [toNat_leading]
      omega
    · norm_num
      omega
    · rw [toNat_leading]
      omega
    · norm_num
      omega

/-! ### Order -/

/-- The order of two positive numbers is that of their exponents first and of
their mantissas then. -/
lemma compare_magnitude {s s' : Sign} {m m' : ℕ} {e e' : ℤ} {hm : 0 < m} {hm' : 0 < m'}
    (h : Rounded (.finite s m e hm)) (h' : Rounded (.finite s' m' e' hm')) :
    (compare e e').then (compare m m') =
      compare (m * 2 ^ (e + 149).toNat) (m' * 2 ^ (e' + 149).toNat) := by
  have hlt : ∀ {m m' : ℕ} {e e' : ℤ}, m < 2 ^ 24 → -149 ≤ e → e < e' →
      (e' = -149 ∨ 2 ^ 23 ≤ m') → m * 2 ^ (e + 149).toNat < m' * 2 ^ (e' + 149).toNat := by
    intro m m' e e' hm he hlt hleading
    have hm' : 2 ^ 23 ≤ m' := by omega
    calc m * 2 ^ (e + 149).toNat < 2 ^ 24 * 2 ^ (e + 149).toNat :=
          Nat.mul_lt_mul_of_pos_right hm (Nat.two_pow_pos _)
      _ = 2 ^ 23 * 2 ^ ((e + 149).toNat + 1) := by ring
      _ ≤ m' * 2 ^ (e' + 149).toNat :=
          Nat.mul_le_mul hm' (Nat.pow_le_pow_right (by norm_num) (by omega))
  obtain ⟨hbits, he, hleading⟩ := h
  obtain ⟨hbits', he', hleading'⟩ := h'
  rcases lt_trichotomy e e' with hee | rfl | hee
  · rw [compare_lt_iff_lt.mpr hee, compare_lt_iff_lt.mpr (hlt hbits he hee hleading')]
    rfl
  · have hpos : 0 < 2 ^ (e + 149).toNat := Nat.two_pow_pos _
    rw [compare_eq_iff_eq.mpr rfl, Ordering.eq_then]
    rcases lt_trichotomy m m' with hmm | rfl | hmm
    · rw [compare_lt_iff_lt.mpr hmm, compare_lt_iff_lt.mpr (Nat.mul_lt_mul_of_pos_right hmm hpos)]
    · rw [compare_eq_iff_eq.mpr rfl, compare_eq_iff_eq.mpr rfl]
    · rw [compare_gt_iff_gt.mpr hmm, compare_gt_iff_gt.mpr (Nat.mul_lt_mul_of_pos_right hmm hpos)]
  · rw [compare_gt_iff_gt.mpr hee, compare_gt_iff_gt.mpr (hlt hbits' he' hee hleading)]
    rfl

/-- The numbers within the range of exponents are those below the end of the range. -/
lemma magnitude_lt_limit_iff {s : Sign} {m : ℕ} {e : ℤ} {hm : 0 < m}
    (h : Rounded (.finite s m e hm)) : m * 2 ^ (e + 149).toNat < limit ↔ e ≤ 104 := by
  obtain ⟨hbits, he, hleading⟩ := h
  constructor
  · intro hlt
    by_contra hcon
    have hle : 2 ^ 23 * 2 ^ 254 ≤ m * 2 ^ (e + 149).toNat :=
      Nat.mul_le_mul (by omega) (Nat.pow_le_pow_right (by norm_num) (by omega))
    have hlimit : limit = 2 ^ 23 * 2 ^ 254 := by rw [limit]; ring
    omega
  · intro hle
    calc m * 2 ^ (e + 149).toNat < 2 ^ 24 * 2 ^ (e + 149).toNat :=
          Nat.mul_lt_mul_of_pos_right hbits (Nat.two_pow_pos _)
      _ ≤ 2 ^ 24 * 2 ^ 253 :=
          Nat.mul_le_mul_left _ (Nat.pow_le_pow_right (by norm_num) (by omega))
      _ = limit := limit.eq_1.symm

lemma weight_positive_pos {m : ℕ} {e : ℤ} (hm : 0 < m) : 0 < weight (.finite .positive m e hm) := by
  simp only [weight, Sign.apply]
  positivity

lemma weight_negative_neg {m : ℕ} {e : ℤ} (hm : 0 < m) : weight (.finite .negative m e hm) < 0 :=
  neg_lt_zero.mpr (weight_positive_pos hm)

/-- What is not infinite lies within the range. -/
lemma natAbs_weight_lt {x : UnpackedFloat} (hx : Packable x) (h : ∀ s, x ≠ .infinity s) :
    (weight x).natAbs < limit := by
  cases x with
  | notANumber => exact limit_pos
  | infinity s => exact absurd rfl (h s)
  | zero s => exact limit_pos
  | finite s m e hm =>
      have hlt := (magnitude_lt_limit_iff hx.1).mpr hx.2
      cases s <;> simp only [weight, Sign.apply, Int.natAbs_neg, Int.natAbs_natCast, hlt]

/-- Numbers are compared by what they count for. -/
lemma compare_eq {x y : UnpackedFloat} (hx : Packable x) (hy : Packable y)
    (hnx : x ≠ .notANumber) (hny : y ≠ .notANumber) :
    UnpackedFloat.compare x y = some (compare (weight x) (weight y)) := by
  have hinfinite : limit < infinite := by
    have := limit_pos
    rw [infinite]
    omega
  have hlt : ∀ {a b : ℤ}, a < b → some Ordering.lt = some (compare a b) :=
    fun h => congrArg some (compare_lt_iff_lt.mpr h).symm
  have hgt : ∀ {a b : ℤ}, b < a → some Ordering.gt = some (compare a b) :=
    fun h => congrArg some (compare_gt_iff_gt.mpr h).symm
  have hcast : ∀ a b : ℕ, compare (a : ℤ) (b : ℤ) = compare a b :=
    fun a b => by simp [compare, compareOfLessAndEq]
  have hneg : ∀ a b : ℤ, compare (-a) (-b) = compare b a :=
    fun a b => by simp [compare, compareOfLessAndEq, eq_comm]
  fun_cases UnpackedFloat.compare x y with
  | case1 => exact absurd rfl hnx
  | case2 => exact absurd rfl hny
  | case3 s s' =>
      cases s <;> cases s' <;> simp only [weight, Sign.apply]
      · exact congrArg some (compare_eq_iff_eq.mpr rfl).symm
      · exact hlt (by omega)
      · exact hgt (by omega)
      · exact congrArg some (compare_eq_iff_eq.mpr rfl).symm
  | case4 _ _ hfinite =>
      have hy' := natAbs_weight_lt hy hfinite
      exact hgt (show weight y < infinite by omega)
  | case5 _ _ hfinite =>
      have hy' := natAbs_weight_lt hy hfinite
      exact hlt (show -(infinite : ℤ) < weight y by omega)
  | case6 _ _ hfinite =>
      have hx' := natAbs_weight_lt hx hfinite
      exact hlt (show weight x < infinite by omega)
  | case7 _ _ hfinite =>
      have hx' := natAbs_weight_lt hx hfinite
      exact hgt (show -(infinite : ℤ) < weight x by omega)
  | case8 => exact hgt (weight_positive_pos _)
  | case9 => exact hlt (weight_negative_neg _)
  | case10 => exact hlt (weight_positive_pos _)
  | case11 => exact hgt (weight_negative_neg _)
  | case12 => rfl
  | case13 =>
      rw [compare_magnitude hx.1 hy.1, Nat.compare_swap]
      exact congrArg some ((hneg _ _).trans (hcast _ _)).symm
  | case14 => exact hlt ((weight_negative_neg _).trans (weight_positive_pos _))
  | case15 => exact hgt ((weight_negative_neg _).trans (weight_positive_pos _))
  | case16 =>
      rw [compare_magnitude hx.1 hy.1]
      exact congrArg some (hcast _ _).symm

/-! ### Sums -/

/-- The number that is kept of an unpacked one. -/
def kept (u : UnpackedFloat) : UnpackedFloat :=
  UnpackedFloat.unpack .binary32 (UnpackedFloat.pack .binary32 u)

lemma kept_round (s : Sign) {m : ℕ} {e : ℤ} (hm : 0 < m) (he : -149 ≤ e) :
    kept (UnpackedFloat.round .binary32 s m e) ≠ .notANumber ∧
      weight (kept (UnpackedFloat.round .binary32 s m e)) =
        s.apply (settleNat (m * 2 ^ (e + 149).toNat)) := by
  obtain ⟨m', e', hm', hround, hrounded, hnearest⟩ := round_spec s hm he
  rw [kept, hround, unpack_pack_finite s hm' hrounded, settleNat, ← hnearest,
    if_congr (magnitude_lt_limit_iff hrounded) rfl rfl]
  split_ifs with hle
  · exact ⟨by simp, rfl⟩
  · exact ⟨by simp, rfl⟩

/-- The nearest number to an exact sum is kept. -/
lemma kept_normalize (n : ℤ) {e : ℤ} (he : -149 ≤ e) (z : Sign) :
    kept (UnpackedFloat.normalize .binary32 n e z) ≠ .notANumber ∧
      weight (kept (UnpackedFloat.normalize .binary32 n e z)) =
        settle (n * 2 ^ (e + 149).toNat) := by
  rcases lt_trichotomy n 0 with hn | rfl | hn
  · obtain ⟨k, rfl⟩ : ∃ k : ℕ, n = -k := ⟨n.natAbs, by omega⟩
    obtain ⟨hnumber, hweight⟩ := kept_round .negative (m := k) (by omega) he
    rw [UnpackedFloat.normalize, compare_lt_iff_lt.mpr hn, neg_mul, settle_neg]
    simp only [neg_neg, Int.toNat_natCast]
    refine ⟨hnumber, hweight.trans ?_⟩
    rw [Sign.apply, ← settle_natCast]
    push_cast
    rfl
  · rw [UnpackedFloat.normalize, compare_eq_iff_eq.mpr rfl, zero_mul, settle_zero]
    simp only [kept, UnpackedFloat.pack, unpack_packedZero]
    exact ⟨by simp, rfl⟩
  · obtain ⟨k, rfl⟩ : ∃ k : ℕ, n = k := ⟨n.natAbs, by omega⟩
    obtain ⟨hnumber, hweight⟩ := kept_round .positive (m := k) (by omega) he
    rw [UnpackedFloat.normalize, compare_gt_iff_gt.mpr hn]
    simp only [Int.toNat_natCast]
    refine ⟨hnumber, hweight.trans ?_⟩
    rw [Sign.apply, ← settle_natCast]
    push_cast
    rfl

/-- What is kept already stays as it is. -/
lemma settle_weight {x : UnpackedFloat} (hx : Packable x) : settle (weight x) = weight x := by
  have happly : ∀ (s : Sign) (n : ℤ), settle n = n → settle (s.apply n) = s.apply n := by
    intro s n hn
    cases s with
    | positive => exact hn
    | negative => rw [Sign.apply, settle_neg, hn]
  cases x with
  | notANumber => exact settle_zero
  | zero s => exact settle_zero
  | infinity s => exact happly s _ (settle_of_limit_le (by rw [infinite]; omega))
  | finite s m e hm =>
      refine happly s _ ?_
      have hnearest := nearest_mul_two_pow hx.1.1 (e + 149).toNat
      rw [settle_natCast, settleNat, hnearest, if_pos ((magnitude_lt_limit_iff hx.1).mpr hx.2)]

lemma kept_eq {x : UnpackedFloat} (hx : Packable x) : kept x = x := by
  cases x with
  | notANumber => exact unpack_packedNaN
  | zero s => exact unpack_packedZero
  | infinity s => cases s <;> rfl
  | finite s m e hm => rw [kept, unpack_pack_finite s hm hx.1, if_pos hx.2]

/-- Two numbers that have a sum: not two opposite infinities. -/
def Summable (x y : UnpackedFloat) : Prop :=
  x ≠ .notANumber ∧ y ≠ .notANumber ∧ ∀ s s', x = .infinity s → y = .infinity s' → s = s'

lemma settle_infinite_add (s : Sign) {n : ℤ} (h : n.natAbs < limit ∨ n = s.apply infinite) :
    settle (s.apply infinite + n) = s.apply infinite := by
  have hinfinite : (infinite : ℤ) = 4 * limit := by rw [infinite]; norm_num
  have hpos := limit_pos
  cases s with
  | positive =>
      simp only [Sign.apply] at h ⊢
      exact settle_of_limit_le (by omega)
  | negative =>
      simp only [Sign.apply] at h ⊢
      rw [show -(infinite : ℤ) + n = -(infinite + -n) by ring, settle_neg,
        settle_of_limit_le (by omega)]

/-- A number at a smaller exponent counts for the same. -/
lemma apply_scaled (s : Sign) (m : ℕ) {e low : ℤ} (h : low ≤ e) (hlow : -149 ≤ low) :
    s.apply ↑(m * 2 ^ (e - low).toNat) * 2 ^ (low + 149).toNat =
      s.apply ↑(m * 2 ^ (e + 149).toNat) := by
  have hpow : (e + 149).toNat = (e - low).toNat + (low + 149).toNat := by omega
  have hscale : ((m * 2 ^ (e - low).toNat : ℕ) : ℤ) * 2 ^ (low + 149).toNat =
      ↑(m * 2 ^ (e + 149).toNat) := by
    rw [hpow]
    push_cast
    ring
  cases s with
  | positive => exact hscale
  | negative => rw [Sign.apply, Sign.apply, neg_mul, hscale]

/-- Two finite numbers are added at the smaller exponent. -/
lemma kept_add_finite {s s' : Sign} {m m' : ℕ} {e e' : ℤ} {hm : 0 < m} {hm' : 0 < m'}
    (hx : Packable (.finite s m e hm)) (hy : Packable (.finite s' m' e' hm')) :
    kept (UnpackedFloat.add .binary32 (.finite s m e hm) (.finite s' m' e' hm')) ≠ .notANumber ∧
      weight (kept (UnpackedFloat.add .binary32 (.finite s m e hm) (.finite s' m' e' hm'))) =
        settle (weight (.finite s m e hm) + weight (.finite s' m' e' hm')) := by
  have he := hx.1.2.1
  have he' := hy.1.2.1
  have hlow : -149 ≤ min e e' := le_min he he'
  rw [weight, weight, ← apply_scaled s m (min_le_left e e') hlow,
    ← apply_scaled s' m' (min_le_right e e') hlow, ← add_mul]
  simp only [UnpackedFloat.add, decreaseExponent, Nat.shiftLeft_eq]
  exact kept_normalize _ hlow .positive

/-- **The sum of two numbers is the number nearest to their exact sum.** -/
lemma kept_add {x y : UnpackedFloat} (hx : Packable x) (hy : Packable y) (h : Summable x y) :
    kept (UnpackedFloat.add .binary32 x y) ≠ .notANumber ∧
      weight (kept (UnpackedFloat.add .binary32 x y)) = settle (weight x + weight y) := by
  obtain ⟨hnx, hny, hsame⟩ := h
  -- all sums but those of two finite numbers are one of the operands
  have hkept : ∀ {z : UnpackedFloat}, Packable z → z ≠ .notANumber →
      settle (weight x + weight y) = weight z →
      kept z ≠ .notANumber ∧ weight (kept z) = settle (weight x + weight y) := by
    intro z hz hnz hsettle
    rw [kept_eq hz]
    exact ⟨hnz, hsettle.symm⟩
  cases x with
  | notANumber => exact absurd rfl hnx
  | infinity s =>
      cases y with
      | notANumber => exact absurd rfl hny
      | infinity s' =>
          obtain rfl := hsame s s' rfl rfl
          rw [UnpackedFloat.add, if_pos (by simp)]
          exact hkept hx hnx (settle_infinite_add s (Or.inr rfl))
      | zero s' =>
        exact hkept hx hnx (settle_infinite_add s (Or.inl (natAbs_weight_lt hy (by simp))))
      | finite s' m e hm =>
          exact hkept hx hnx (settle_infinite_add s (Or.inl (natAbs_weight_lt hy (by simp))))
  | zero s =>
      have hzero : settle (weight (.zero s) + weight y) = weight y := by
        rw [weight, zero_add, settle_weight hy]
      cases y with
      | notANumber => exact absurd rfl hny
      | infinity s' => exact hkept hy hny hzero
      | zero s' =>
          rw [UnpackedFloat.add]
          split_ifs
          · exact hkept hx hnx settle_zero
          · exact hkept (z := .zero .positive) trivial (by simp) settle_zero
      | finite s' m e hm => exact hkept hy hny hzero
  | finite s m e hm =>
      cases y with
      | notANumber => exact absurd rfl hny
      | infinity s' =>
          refine hkept hy hny ?_
          rw [add_comm]
          exact settle_infinite_add s' (Or.inl (natAbs_weight_lt hx (by simp)))
      | zero s' =>
          refine hkept hx hnx ?_
          rw [show weight (.zero s') = 0 from rfl, add_zero]
          exact settle_weight hx
      | finite s' m' e' hm' => exact kept_add_finite hx hy

/-- Only such numbers have a sum. -/
lemma summable_of_kept_add {x y : UnpackedFloat}
    (h : kept (UnpackedFloat.add .binary32 x y) ≠ .notANumber) : Summable x y := by
  have hkept : kept .notANumber = .notANumber := unpack_packedNaN
  refine ⟨?_, ?_, ?_⟩
  · rintro rfl
    exact h hkept
  · rintro rfl
    cases x <;> exact h hkept
  · rintro s s' rfl rfl
    by_contra hne
    rw [UnpackedFloat.add, if_neg (by simpa using hne)] at h
    exact h hkept

lemma apply_neg (s : Sign) (n : ℤ) : (-s).apply n = -s.apply n := by
  cases s with
  | positive => rfl
  | negative => exact (neg_neg n).symm

/-- A difference is a sum with the opposite number. -/
lemma sub_eq_add_neg (x y : UnpackedFloat) :
    UnpackedFloat.sub .binary32 x y = UnpackedFloat.add .binary32 x y.neg := by
  cases x with
  | finite s m e hm =>
      cases y with
      | finite s' m' e' hm' =>
          simp only [UnpackedFloat.sub, UnpackedFloat.add, UnpackedFloat.neg, apply_neg,
            Int.sub_eq_add_neg]
      | _ => rfl
  | _ => cases y <;> rfl

lemma weight_neg (x : UnpackedFloat) : weight x.neg = -weight x := by
  cases x with
  | notANumber => rfl
  | zero s => rfl
  | infinity s => exact apply_neg s _
  | finite s m e hm => exact apply_neg s _

lemma packable_neg {x : UnpackedFloat} (hx : Packable x) : Packable x.neg := by
  cases x <;> exact hx

/-! ### Positive results -/

lemma unpack_packComponents_nonneg {e : BitVec 8} {m : BitVec 23} (h : e = -1#8 → m = 0#23) :
    UnpackedFloat.unpack .binary32 (packComponents .binary32 .positive e m) ≠ .notANumber ∧
      0 ≤ weight (UnpackedFloat.unpack .binary32 (packComponents .binary32 .positive e m)) := by
  simp only [UnpackedFloat.unpack, unpackSign_packComponents, Sign.ofBitVec_toBitVec,
    unpackExponent_packComponents, unpackMantissa_packComponents]
  split_ifs with htop hinfinite hzero hnonzero
  · exact ⟨by simp, Int.natCast_nonneg _⟩
  · exact absurd (h htop) hinfinite
  · exact ⟨by simp, Int.le_refl _⟩
  · exact ⟨by simp, (weight_positive_pos _).le⟩
  · exact ⟨by simp, (weight_positive_pos _).le⟩

/-- Whatever is kept of a positive number is a number and not negative. -/
lemma kept_positive {m : ℕ} {e : ℤ} (hm : 0 < m) :
    kept (.finite .positive m e hm) ≠ .notANumber ∧
      0 ≤ weight (kept (.finite .positive m e hm)) := by
  simp only [kept, UnpackedFloat.pack]
  split_ifs with htop hnormal
  · exact unpack_packComponents_nonneg fun _ => rfl
  · refine unpack_packComponents_nonneg fun h => absurd (congrArg BitVec.toNat h) ?_
    rw [BitVec.toNat_ofNat]
    change ¬ _ % 2 ^ 8 = 255
    omega
  · exact unpack_packComponents_nonneg fun h => absurd h (by decide)

/-- Rounding keeps what is positive from being negative. -/
lemma kept_roundWithAccuracy_positive (m : ℕ) (e : ℤ) (a : Accuracy) :
    kept (roundWithAccuracy .binary32 .positive m e a) ≠ .notANumber ∧
      0 ≤ weight (kept (roundWithAccuracy .binary32 .positive m e a)) := by
  simp only [roundWithAccuracy]
  split_ifs with hzero
  · rw [kept_eq (show Packable (.zero .positive) from trivial)]
    exact ⟨by simp, Int.le_refl _⟩
  · exact kept_positive _

end Drafting.Binary
