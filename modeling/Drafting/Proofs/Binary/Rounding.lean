import Mathlib

/-!
Rounding integers to 24 significant bits.

The finite numbers of 32 bits are integral multiples of the least positive one.  Counted in that
unit, an exact result is an integer, and the machine keeps the nearest integer with 24 significant
bits, a tie going to the even one; past the end of the range it keeps infinity.

* `roundShift`: a quotient by a power of two, rounded.
* `nearest`: the nearest number with 24 significant bits; it is monotone (`nearest_mono`), leaves
  numbers of 24 bits alone (`nearest_mul_two_pow`) and errs by one part in `2 ^ 24` at most
  (`nearest_error`).
* `settle`: the same for integers, with infinities past the end of the range; it is monotone too
  (`settle_mono`).
-/

namespace Drafting.Binary

/-! ### Quotients -/

/-- The integer nearest to `n / 2 ^ k`, a half going to the even neighbour. -/
def roundShift (n k : ℕ) : ℕ :=
  if 2 * (n % 2 ^ k) < 2 ^ k then n / 2 ^ k
  else if 2 ^ k < 2 * (n % 2 ^ k) then n / 2 ^ k + 1
  else n / 2 ^ k + n / 2 ^ k % 2

lemma le_roundShift (n k : ℕ) : n / 2 ^ k ≤ roundShift n k := by
  rw [roundShift]
  split_ifs <;> omega

lemma roundShift_le (n k : ℕ) : roundShift n k ≤ n / 2 ^ k + 1 := by
  rw [roundShift]
  split_ifs <;> omega

@[simp]
lemma roundShift_zero (n : ℕ) : roundShift n 0 = n := by simp [roundShift, Nat.mod_one]

lemma roundShift_mul_two_pow (n j k : ℕ) : roundShift (n * 2 ^ j) (k + j) = roundShift n k := by
  have hj : 0 < 2 ^ j := Nat.two_pow_pos j
  have hdiv : n * 2 ^ j / 2 ^ (k + j) = n / 2 ^ k := by
    rw [pow_add, Nat.mul_div_mul_right n (2 ^ k) hj]
  have hmod : n * 2 ^ j % 2 ^ (k + j) = n % 2 ^ k * 2 ^ j := by
    rw [pow_add, Nat.mul_mod_mul_right]
  have hlow : 2 * (n % 2 ^ k * 2 ^ j) < 2 ^ (k + j) ↔ 2 * (n % 2 ^ k) < 2 ^ k := by
    rw [pow_add, ← Nat.mul_assoc, Nat.mul_lt_mul_right hj]
  have hhigh : 2 ^ (k + j) < 2 * (n % 2 ^ k * 2 ^ j) ↔ 2 ^ k < 2 * (n % 2 ^ k) := by
    rw [pow_add, ← Nat.mul_assoc, Nat.mul_lt_mul_right hj]
  simp only [roundShift, hdiv, hmod, hlow, hhigh]

lemma roundShift_mono {m n : ℕ} (h : m ≤ n) (k : ℕ) : roundShift m k ≤ roundShift n k := by
  rcases Nat.lt_or_ge (m / 2 ^ k) (n / 2 ^ k) with hlt | hge
  · exact (roundShift_le m k).trans (Nat.le_trans hlt (le_roundShift n k))
  · -- the quotients are equal, so the remainders decide
    have hquotient : m / 2 ^ k = n / 2 ^ k := (Nat.div_le_div_right h).antisymm hge
    have hm := Nat.div_add_mod m (2 ^ k)
    have hn := Nat.div_add_mod n (2 ^ k)
    rw [hquotient] at hm
    have hremainder : m % 2 ^ k ≤ n % 2 ^ k := by omega
    simp only [roundShift, hquotient]
    split_ifs <;> omega

/-- A rounded quotient is off by a half at most. -/
lemma roundShift_error (n k : ℕ) :
    2 * n ≤ 2 * (roundShift n k * 2 ^ k) + 2 ^ k ∧
      2 * (roundShift n k * 2 ^ k) ≤ 2 * n + 2 ^ k := by
  have hn := Nat.div_add_mod' n (2 ^ k)
  have hlt := Nat.mod_lt n (Nat.two_pow_pos k)
  rw [roundShift]
  split_ifs with hlow hhigh
  · constructor <;> omega
  · rw [Nat.add_mul, Nat.one_mul]
    constructor <;> omega
  · rcases Nat.mod_two_eq_zero_or_one (n / 2 ^ k) with hparity | hparity
    · rw [hparity, Nat.add_zero]
      constructor <;> omega
    · rw [hparity, Nat.add_mul, Nat.one_mul]
      constructor <;> omega

/-! ### Natural numbers -/

/-- The number of low bits that have no place among 24 significant ones. -/
def excess (n : ℕ) : ℕ := n.log2 - 23

/-- The nearest number with 24 significant bits, a tie going to the even one. -/
def nearest (n : ℕ) : ℕ := roundShift n (excess n) * 2 ^ excess n

lemma nearest_of_lt {n : ℕ} (h : n < 2 ^ 24) : nearest n = n := by
  have hlog : n.log2 ≤ 23 := by
    rcases Nat.eq_zero_or_pos n with rfl | hpos
    · simp
    · have := (Nat.log2_lt hpos.ne').mpr h
      omega
  have hexcess : excess n = 0 := by rw [excess]; omega
  rw [nearest, hexcess, roundShift_zero, pow_zero, Nat.mul_one]

lemma log2_mul_two_pow {m : ℕ} (h : 0 < m) (j : ℕ) : (m * 2 ^ j).log2 = m.log2 + j := by
  refine (Nat.log2_eq_iff (by positivity)).mpr ⟨?_, ?_⟩
  · rw [pow_add]
    exact Nat.mul_le_mul_right _ (Nat.log2_self_le h.ne')
  · rw [show m.log2 + j + 1 = m.log2 + 1 + j by omega, pow_add]
    exact Nat.mul_lt_mul_of_pos_right Nat.lt_log2_self (Nat.two_pow_pos j)

/-- Rounding in a coarser unit. -/
lemma nearest_mul_two_pow_eq {m j k : ℕ} (hk : k + j = excess (m * 2 ^ j)) :
    nearest (m * 2 ^ j) = roundShift m k * 2 ^ (k + j) := by
  rw [nearest, ← hk, roundShift_mul_two_pow]

/-- Numbers of 24 significant bits are left alone. -/
lemma nearest_mul_two_pow {m : ℕ} (h : m < 2 ^ 24) (j : ℕ) : nearest (m * 2 ^ j) = m * 2 ^ j := by
  rcases Nat.eq_zero_or_pos m with rfl | hpos
  · rw [Nat.zero_mul]
    exact nearest_of_lt (by norm_num)
  · have hlog : m.log2 < 24 := (Nat.log2_lt hpos.ne').mpr h
    have hexcess : excess (m * 2 ^ j) ≤ j := by
      rw [excess, log2_mul_two_pow hpos]
      omega
    obtain ⟨i, hi⟩ := Nat.exists_eq_add_of_le hexcess
    set x := excess (m * 2 ^ j) with hx
    have hsplit : m * 2 ^ j = m * 2 ^ i * 2 ^ x := by rw [hi, pow_add]; ring
    have hround := roundShift_mul_two_pow (m * 2 ^ i) x 0
    rw [Nat.zero_add, roundShift_zero, ← hsplit] at hround
    rw [nearest, ← hx, hround, ← hsplit]

/-- Rounding stays within the powers of two around a number. -/
lemma nearest_bounds {n : ℕ} (h : n ≠ 0) :
    2 ^ n.log2 ≤ nearest n ∧ nearest n ≤ 2 ^ (n.log2 + 1) := by
  have hlow := Nat.log2_self_le h
  have hhigh : n < 2 ^ (n.log2 + 1) := Nat.lt_log2_self
  by_cases hsmall : n < 2 ^ 24
  · rw [nearest_of_lt hsmall]
    exact ⟨hlow, hhigh.le⟩
  · have hlog : 23 < n.log2 := by
      by_contra hcon
      exact hsmall (hhigh.trans_le (Nat.pow_le_pow_right (by norm_num) (by omega)))
    have hpos : 0 < 2 ^ excess n := Nat.two_pow_pos _
    have hpow : ∀ i, 2 ^ (n.log2 + i) = 2 ^ (23 + i) * 2 ^ excess n := fun i => by
      rw [← pow_add, excess]
      congr 1
      omega
    have hfloor : 2 ^ 23 ≤ n / 2 ^ excess n := by
      rw [Nat.le_div_iff_mul_le hpos]
      have hsame := hpow 0
      rw [Nat.add_zero, Nat.add_zero] at hsame
      exact hsame ▸ hlow
    have hceil : n / 2 ^ excess n < 2 ^ 24 := by
      rw [Nat.div_lt_iff_lt_mul hpos]
      exact hpow 1 ▸ hhigh
    constructor
    · have hsame := hpow 0
      rw [Nat.add_zero, Nat.add_zero] at hsame
      rw [hsame, nearest]
      exact Nat.mul_le_mul_right _ (hfloor.trans (le_roundShift n _))
    · rw [hpow 1, nearest]
      exact Nat.mul_le_mul_right _ ((roundShift_le n _).trans hceil)

lemma nearest_mono {m n : ℕ} (h : m ≤ n) : nearest m ≤ nearest n := by
  rcases Nat.eq_zero_or_pos m with rfl | hm
  · rw [nearest_of_lt (by norm_num)]
    exact Nat.zero_le _
  · have hn : n ≠ 0 := by omega
    have hlog : m.log2 ≤ n.log2 := by
      rw [Nat.le_log2 hn]
      exact (Nat.log2_self_le hm.ne').trans h
    rcases hlog.lt_or_eq with hlt | heq
    · -- a power of two lies between the two
      calc nearest m ≤ 2 ^ (m.log2 + 1) := (nearest_bounds hm.ne').2
        _ ≤ 2 ^ n.log2 := Nat.pow_le_pow_right (by norm_num) hlt
        _ ≤ nearest n := (nearest_bounds hn).1
    · have hexcess : excess m = excess n := by rw [excess, excess, heq]
      rw [nearest, nearest, hexcess]
      exact Nat.mul_le_mul_right _ (roundShift_mono h _)

/-- Rounding is off by one part in `2 ^ 24` at most, of the number and of the result. -/
lemma nearest_error (n : ℕ) :
    ∃ u, 2 ^ 24 * u ≤ n ∧ 2 ^ 24 * u ≤ nearest n ∧ n ≤ nearest n + u ∧ nearest n ≤ n + u := by
  by_cases hsmall : n < 2 ^ 24
  · exact ⟨0, by simp [nearest_of_lt hsmall]⟩
  · have hn : n ≠ 0 := by omega
    have hlog : 24 ≤ n.log2 := (Nat.le_log2 hn).mpr (Nat.not_lt.mp hsmall)
    have hexcess : excess n = n.log2 - 24 + 1 := by rw [excess]; omega
    have hunit : 2 ^ 24 * 2 ^ (n.log2 - 24) = 2 ^ n.log2 := by
      rw [← pow_add, Nat.add_sub_cancel' hlog]
    obtain ⟨hlow, hhigh⟩ := roundShift_error n (excess n)
    rw [← nearest, hexcess, pow_succ] at hlow hhigh
    refine ⟨2 ^ (n.log2 - 24), ?_, ?_, by omega, by omega⟩
    · exact hunit ▸ Nat.log2_self_le hn
    · exact hunit ▸ (nearest_bounds hn).1

/-! ### Integers -/

/-- The end of the range: what lies there or past it is infinite. -/
def limit : ℕ := 2 ^ 24 * 2 ^ 253

lemma limit_pos : 0 < limit := by rw [limit]; positivity

/-- What infinity counts for: more than any sum of finite numbers. -/
def infinite : ℕ := 4 * limit

/-- A rounded number, or infinity past the end of the range. -/
def settleNat (n : ℕ) : ℕ := if nearest n < limit then nearest n else infinite

/-- An integer rounded to 24 significant bits, or an infinity past the end of the range. -/
def settle (n : ℤ) : ℤ := if 0 ≤ n then settleNat n.toNat else -settleNat (-n).toNat

lemma settleNat_mono {m n : ℕ} (h : m ≤ n) : settleNat m ≤ settleNat n := by
  have hnearest := nearest_mono h
  rw [settleNat, settleNat, infinite]
  split_ifs <;> omega

lemma settle_mono {m n : ℤ} (h : m ≤ n) : settle m ≤ settle n := by
  rw [settle, settle]
  split_ifs with hm hn hn
  · exact_mod_cast settleNat_mono (Int.toNat_le_toNat h)
  · omega
  · omega
  · have := settleNat_mono (m := (-n).toNat) (n := (-m).toNat) (by omega)
    omega

lemma settle_natCast (n : ℕ) : settle n = settleNat n := by
  rw [settle, if_pos (Int.natCast_nonneg n), Int.toNat_natCast]

@[simp]
lemma settle_zero : settle 0 = 0 := by
  rw [settle, if_pos (le_refl _), Int.toNat_zero, settleNat, nearest_of_lt (by norm_num),
    if_pos limit_pos]
  rfl

lemma settle_neg (n : ℤ) : settle (-n) = -settle n := by
  rcases lt_trichotomy n 0 with hn | rfl | hn
  · rw [settle, settle, if_pos (by omega), if_neg (by omega), neg_neg]
  · simp
  · rw [settle, settle, if_neg (by omega), if_pos (by omega), neg_neg]

lemma nearest_limit : nearest limit = limit := by
  have hpow : limit = 2 ^ 23 * 2 ^ 254 := by rw [limit]; ring
  rw [hpow]
  exact nearest_mul_two_pow (by norm_num) 254

/-- Past the end of the range all is infinite. -/
lemma settle_of_limit_le {n : ℤ} (h : limit ≤ n) : settle n = infinite := by
  have hle : limit ≤ nearest n.toNat := nearest_limit ▸ nearest_mono (by omega)
  rw [settle, if_pos (by omega), settleNat, if_neg (Nat.not_lt.mpr hle)]

/-- A result that is not infinite is off by one part in `2 ^ 24` at most. -/
lemma settle_error {n : ℤ} (h : (settle n).natAbs < limit) :
    ∃ u : ℕ, 2 ^ 24 * u ≤ n.natAbs ∧ 2 ^ 24 * u ≤ (settle n).natAbs ∧
      n ≤ settle n + u ∧ settle n ≤ n + u := by
  obtain ⟨u, hexact, hresult, hlow, hhigh⟩ := nearest_error n.natAbs
  have hfinite : settleNat n.natAbs < limit → settleNat n.natAbs = nearest n.natAbs := by
    rw [settleNat, infinite]
    split_ifs <;> omega
  refine ⟨u, hexact, ?_⟩
  rw [settle] at h ⊢
  split_ifs at h ⊢ with hn
  · rw [show n.toNat = n.natAbs by omega] at h ⊢
    have hsettle := hfinite (by omega)
    omega
  · rw [show (-n).toNat = n.natAbs by omega] at h ⊢
    have hsettle := hfinite (by omega)
    omega

/-! ### Absorption -/

lemma settle_nonneg {n : ℤ} (h : 0 ≤ n) : 0 ≤ settle n := settle_zero ▸ settle_mono h

/-- What is rounded to a number below the end of the range lies there itself. -/
lemma lt_limit_of_settle_lt {n : ℤ} (h : settle n < limit) : n < limit := by
  by_contra hcon
  rw [settle_of_limit_le (not_lt.mp hcon), infinite] at h
  omega

/-- A summand is not absorbed by one that is at most `2 ^ 22` times as large. -/
lemma lt_settle_add {c e : ℤ} (hc : 0 ≤ c) (hlimit : c < limit) (he : 0 < e)
    (hle : c ≤ 2 ^ 22 * e) : c < settle (c + e) := by
  by_contra hcon
  have hnonneg := settle_nonneg (show 0 ≤ c + e by omega)
  obtain ⟨u, hexact, -, hlow, -⟩ := settle_error (show (settle (c + e)).natAbs < limit by omega)
  omega

/-- A gap of at least `2 ^ -22` of all coordinates around it survives a translation. -/
lemma settle_add_lt_settle_add {c d e o : ℤ} (hc : 0 ≤ c) (he : 0 < e) (hgap : settle (c + e) ≤ d)
    (hd : d < limit) (hle : c ≤ 2 ^ 22 * e)
    (hfinite : (settle (c + o)).natAbs < limit) (hfinite' : (settle (d + o)).natAbs < limit)
    (hmoved : (settle (c + o)).natAbs ≤ 2 ^ 22 * e)
    (hmoved' : (settle (d + o)).natAbs ≤ 2 ^ 22 * e) :
    settle (c + o) < settle (d + o) := by
  have hnonneg := settle_nonneg (show 0 ≤ c + e by omega)
  obtain ⟨u, hexact, -, hlow, -⟩ := settle_error (show (settle (c + e)).natAbs < limit by omega)
  obtain ⟨v, -, hresult, -, hhigh⟩ := settle_error hfinite
  obtain ⟨w, -, hresult', hlow', -⟩ := settle_error hfinite'
  omega

/-- A gap between two neighbours, each reaching some way toward the other, is not lost when the
reach of the second one is added to its end of the gap and subtracted again. -/
lemma le_settle_sub {a b c e : ℤ} (ha : 0 ≤ a) (hb : 0 ≤ b) (he : 0 ≤ e) (hsettled : settle a = a)
    (hgap : settle (settle (a + e) + b) ≤ c) (hc : c < limit) (hle : c ≤ 2 ^ 22 * e) :
    a ≤ settle (c - b) := by
  have hfirst := settle_nonneg (show 0 ≤ a + e by omega)
  have hsecond := settle_nonneg (show 0 ≤ settle (a + e) + b by omega)
  have hlt := lt_limit_of_settle_lt (show settle (settle (a + e) + b) < limit by omega)
  obtain ⟨u, -, hresult, hlow, -⟩ := settle_error (show (settle (a + e)).natAbs < limit by omega)
  obtain ⟨v, -, hresult', hlow', -⟩ :=
    settle_error (show (settle (settle (a + e) + b)).natAbs < limit by omega)
  have hexact : a ≤ c - b := by omega
  exact hsettled ▸ settle_mono hexact

end Drafting.Binary
