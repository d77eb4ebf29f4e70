import Mathlib.Data.Int.Log
import Mathlib.Data.Rat.Floor
import Mathlib.Tactic.Positivity
import Mathlib.Data.Int.ConditionallyCompleteOrder

/-!
# Decimal rounding

A finite decimal number is its rational value. Arithmetic in a decimal context computes the exact
rational result and rounds it to the digits the context keeps.

* `roundHalfEven`: the nearest integer, ties to the even one.
* `roundAt e`: the nearest multiple of `10 ^ e`.
* `Context.round`: the nearest value with `prec` significant digits, no digit below `10 ^ etiny`.
* **`Context.round_mono`** and **`Context.abs_round_sub_le`**: rounding is monotone, and its error
  is at most half a unit in the last place kept.
-/

namespace Decimal

/-! ## Rounding to an integer -/

variable (x : ℚ)

/-- The integer nearest to `x`, the even one of the two when `x` lies halfway. -/
def roundHalfEven : ℤ :=
  if x - ⌊x⌋ < 1 / 2 then ⌊x⌋
  else if 1 / 2 < x - ⌊x⌋ then ⌊x⌋ + 1
  else if ⌊x⌋ % 2 = 0 then ⌊x⌋ else ⌊x⌋ + 1

theorem floor_le_roundHalfEven : ⌊x⌋ ≤ roundHalfEven x := by
  unfold roundHalfEven
  split_ifs <;> omega

theorem roundHalfEven_le_floor_add_one : roundHalfEven x ≤ ⌊x⌋ + 1 := by
  unfold roundHalfEven
  split_ifs <;> omega

theorem abs_roundHalfEven_sub_le : |(roundHalfEven x : ℚ) - x| ≤ 1 / 2 := by
  have h0 := Int.floor_le x
  have h1 := Int.lt_floor_add_one x
  unfold roundHalfEven
  split_ifs <;> push_cast <;> rw [abs_le] <;> constructor <;> linarith

theorem roundHalfEven_eq_of_abs_lt {x : ℚ} {n : ℤ} (h : |x - n| < 1 / 2) :
    roundHalfEven x = n := by
  have hr := abs_roundHalfEven_sub_le x
  rw [abs_le] at hr
  rw [abs_lt] at h
  have h1 : (roundHalfEven x : ℚ) < (n : ℚ) + 1 := by linarith
  have h2 : (n : ℚ) < (roundHalfEven x : ℚ) + 1 := by linarith
  have h1' : roundHalfEven x < n + 1 := by exact_mod_cast h1
  have h2' : n < roundHalfEven x + 1 := by exact_mod_cast h2
  omega

@[simp] theorem roundHalfEven_intCast (n : ℤ) : roundHalfEven (n : ℚ) = n :=
  roundHalfEven_eq_of_abs_lt (by simp)

theorem roundHalfEven_mono : Monotone roundHalfEven := by
  intro x y hxy
  rcases (Int.floor_le_floor hxy).lt_or_eq with hlt | heq
  · have h1 := roundHalfEven_le_floor_add_one x
    have h2 := floor_le_roundHalfEven y
    omega
  · unfold roundHalfEven
    rw [← heq]
    split_ifs <;> first | omega | (exfalso; linarith)

theorem roundHalfEven_neg : roundHalfEven (-x) = -roundHalfEven x := by
  rcases (Int.floor_le x).lt_or_eq with hlt | heq
  · have hfloor : ⌊-x⌋ = -⌊x⌋ - 1 := by
      rw [Int.floor_eq_iff]
      have := Int.lt_floor_add_one x
      push_cast
      constructor <;> linarith
    unfold roundHalfEven
    rw [hfloor]
    push_cast
    split_ifs <;> first | omega | (exfalso; linarith)
  · rw [← heq, ← Int.cast_neg, roundHalfEven_intCast, roundHalfEven_intCast]

/-! ## Rounding at an exponent -/

variable (e : ℤ)

/-- The multiple of `10 ^ e` nearest to `x`, ties to the even coefficient. -/
def roundAt (x : ℚ) : ℚ := roundHalfEven (x / 10 ^ e) * 10 ^ e

theorem ten_zpow_pos : (0 : ℚ) < 10 ^ e := zpow_pos (by norm_num) e

theorem abs_roundAt_sub_le (x : ℚ) : |roundAt e x - x| ≤ 10 ^ e / 2 := by
  have hp := ten_zpow_pos e
  have hx : roundAt e x - x = (roundHalfEven (x / 10 ^ e) - x / 10 ^ e) * 10 ^ e := by
    rw [roundAt, sub_mul, div_mul_cancel₀ _ hp.ne']
  rw [hx, abs_mul, abs_of_pos hp]
  have := mul_le_mul_of_nonneg_right (abs_roundHalfEven_sub_le (x / 10 ^ e)) hp.le
  linarith

theorem roundAt_eq_of_abs_lt {e : ℤ} {x : ℚ} {n : ℤ} (h : |x - n * 10 ^ e| < 10 ^ e / 2) :
    roundAt e x = n * 10 ^ e := by
  have hp := ten_zpow_pos e
  have hn : roundHalfEven (x / 10 ^ e) = n := by
    apply roundHalfEven_eq_of_abs_lt
    have hx : x / 10 ^ e - n = (x - n * 10 ^ e) / 10 ^ e := by field_simp
    rw [hx, abs_div, abs_of_pos hp, div_lt_iff₀ hp]
    linarith
  rw [roundAt, hn]

@[simp] theorem roundAt_int_mul (e : ℤ) (n : ℤ) : roundAt e (n * 10 ^ e) = n * 10 ^ e :=
  roundAt_eq_of_abs_lt (by simpa using ten_zpow_pos e)

@[simp] theorem roundAt_zero (e : ℤ) : roundAt e 0 = 0 := by
  simpa using roundAt_int_mul e 0

theorem roundAt_mono : Monotone (roundAt e) := by
  intro x y hxy
  have hp := ten_zpow_pos e
  have hq : x / 10 ^ e ≤ y / 10 ^ e := div_le_div_of_nonneg_right hxy hp.le
  have hr : (roundHalfEven (x / 10 ^ e) : ℚ) ≤ roundHalfEven (y / 10 ^ e) := by
    exact_mod_cast roundHalfEven_mono hq
  exact mul_le_mul_of_nonneg_right hr hp.le

theorem roundAt_nonneg {e : ℤ} {x : ℚ} (hx : 0 ≤ x) : 0 ≤ roundAt e x := by
  simpa using roundAt_mono e hx

theorem roundAt_neg (x : ℚ) : roundAt e (-x) = -roundAt e x := by
  rw [roundAt, neg_div, roundHalfEven_neg, Int.cast_neg, neg_mul, roundAt]

theorem ten_zpow_eq_int_mul {a e : ℤ} (h : e ≤ a) :
    ∃ n : ℤ, (10 : ℚ) ^ a = n * 10 ^ e := by
  refine ⟨10 ^ (a - e).toNat, ?_⟩
  push_cast
  rw [← zpow_natCast, ← zpow_add₀ (by norm_num : (10 : ℚ) ≠ 0)]
  congr 1
  omega

theorem roundAt_ten_zpow {a e : ℤ} (h : e ≤ a) : roundAt e (10 ^ a) = 10 ^ a := by
  obtain ⟨n, hn⟩ := ten_zpow_eq_int_mul h
  rw [hn, roundAt_int_mul]

theorem roundAt_int_mul_of_le {e k : ℤ} (h : e ≤ k) (n : ℤ) :
    roundAt e (n * 10 ^ k) = n * 10 ^ k := by
  obtain ⟨m, hm⟩ := ten_zpow_eq_int_mul h
  have hx : (n : ℚ) * 10 ^ k = ((n * m : ℤ) : ℚ) * 10 ^ e := by rw [hm]; push_cast; ring
  rw [hx, roundAt_int_mul]

/-! ## Decimal contexts -/

/-- A decimal context: the significant digits it keeps, the exponent below which it keeps nothing,
and the exponent of the first digit above which it has no numbers. -/
structure Context where
  prec : ℕ
  etiny : ℤ
  emax : ℤ
  prec_pos : 0 < prec

namespace Context

variable (c : Context) (x : ℚ)

/-- The exponent of the last digit kept for `x`. -/
def exponent : ℤ := max (Int.log 10 |x| - (c.prec - 1)) c.etiny

/-- The result of an operation whose exact value is `x`. -/
def round : ℚ := if x = 0 then 0 else roundAt (c.exponent x) x

@[simp] theorem round_zero : c.round 0 = 0 := by simp [round]

theorem round_of_ne {x : ℚ} (hx : x ≠ 0) : c.round x = roundAt (c.exponent x) x := if_neg hx

theorem round_eq_roundAt : c.round x = roundAt (c.exponent x) x := by
  by_cases hx : x = 0
  · rw [hx, round_zero, roundAt_zero]
  · exact c.round_of_ne hx

theorem round_neg : c.round (-x) = -c.round x := by
  by_cases hx : x = 0
  · simp [hx]
  · rw [round_of_ne c (neg_ne_zero.mpr hx), round_of_ne c hx, roundAt_neg, exponent, abs_neg]
    rfl

theorem etiny_le_exponent : c.etiny ≤ c.exponent x := le_max_right _ _

theorem ten_zpow_log_le {x : ℚ} (hx : x ≠ 0) : (10 : ℚ) ^ Int.log 10 |x| ≤ |x| := by
  have := Int.zpow_log_le_self (b := 10) (by norm_num) (abs_pos.mpr hx)
  simpa using this

theorem lt_ten_zpow_log : |x| < (10 : ℚ) ^ (Int.log 10 |x| + 1) := by
  have := Int.lt_zpow_succ_log_self (b := 10) (by norm_num) |x|
  simpa using this

theorem log_lt_of_abs_lt {x : ℚ} (hx : x ≠ 0) {k : ℤ} (h : |x| < 10 ^ k) :
    Int.log 10 |x| < k := by
  have h1 := (ten_zpow_log_le hx).trans_lt h
  exact (zpow_lt_zpow_iff_right₀ (by norm_num : (1 : ℚ) < 10)).mp h1

theorem ten_zpow_exponent_le (hx : x ≠ 0) :
    (10 : ℚ) ^ c.exponent x ≤ |x| * 10 ^ (1 - (c.prec : ℤ)) + 10 ^ c.etiny := by
  have h1 : (10 : ℚ) ^ (Int.log 10 |x| - (c.prec - 1)) ≤ |x| * 10 ^ (1 - (c.prec : ℤ)) := by
    have he : Int.log 10 |x| - ((c.prec : ℤ) - 1) = Int.log 10 |x| + (1 - c.prec) := by ring
    rw [he, zpow_add₀ (by norm_num)]
    exact mul_le_mul_of_nonneg_right (ten_zpow_log_le hx) (ten_zpow_pos _).le
  have h2 := ten_zpow_pos c.etiny
  have h3 : 0 ≤ |x| * (10 : ℚ) ^ (1 - (c.prec : ℤ)) :=
    mul_nonneg (abs_nonneg x) (ten_zpow_pos _).le
  rcases max_choice (Int.log 10 |x| - ((c.prec : ℤ) - 1)) c.etiny with h | h <;>
    rw [exponent, h] <;> linarith

/-- **Rounding error.** The error is relative to the value, plus the underflow threshold. -/
theorem abs_round_sub_le :
    |c.round x - x| ≤ (|x| * 10 ^ (1 - (c.prec : ℤ)) + 10 ^ c.etiny) / 2 := by
  by_cases hx : x = 0
  · subst hx
    have := ten_zpow_pos c.etiny
    simp only [round_zero, sub_self, abs_zero, zero_mul, zero_add]
    positivity
  · rw [round_of_ne c hx]
    have h1 := abs_roundAt_sub_le (c.exponent x) x
    have h2 := c.ten_zpow_exponent_le x hx
    linarith

/-- A product whose last digit the context keeps has a relative error only. -/
theorem abs_round_int_mul_sub_le {n k : ℤ} (hk : c.etiny ≤ k) :
    |c.round (n * 10 ^ k) - n * 10 ^ k| ≤ |(n : ℚ) * 10 ^ k| * 10 ^ (1 - (c.prec : ℤ)) / 2 := by
  set x : ℚ := n * 10 ^ k with hxdef
  have hnonneg : 0 ≤ |x| * (10 : ℚ) ^ (1 - (c.prec : ℤ)) / 2 := by
    have := ten_zpow_pos (1 - (c.prec : ℤ))
    positivity
  by_cases hx : x = 0
  · rw [hx, round_zero, sub_self, abs_zero, zero_mul, zero_div]
  rw [round_of_ne c hx]
  rcases le_total (Int.log 10 |x| - ((c.prec : ℤ) - 1)) c.etiny with h | h
  · have he : c.exponent x = c.etiny := max_eq_right h
    rw [he, hxdef, roundAt_int_mul_of_le hk, sub_self, abs_zero]
    exact hnonneg
  · have he : c.exponent x = Int.log 10 |x| + (1 - c.prec) := by
      rw [exponent, max_eq_left h]
      ring
    have hpow : (10 : ℚ) ^ c.exponent x ≤ |x| * 10 ^ (1 - (c.prec : ℤ)) := by
      rw [he, zpow_add₀ (by norm_num)]
      exact mul_le_mul_of_nonneg_right (ten_zpow_log_le hx) (ten_zpow_pos _).le
    have hround := abs_roundAt_sub_le (c.exponent x) x
    linarith

theorem round_int_mul {n k : ℤ} (hn : |n| < 10 ^ c.prec) (hk : c.etiny ≤ k) :
    c.round (n * 10 ^ k) = n * 10 ^ k := by
  by_cases hx : (n : ℚ) * 10 ^ k = 0
  · rw [hx, round_zero]
  · rw [round_of_ne c hx]
    apply roundAt_int_mul_of_le
    have hlt : |(n : ℚ) * 10 ^ k| < 10 ^ ((c.prec : ℤ) + k) := by
      rw [abs_mul, abs_of_pos (ten_zpow_pos k), zpow_add₀ (by norm_num), zpow_natCast]
      exact mul_lt_mul_of_pos_right (by exact_mod_cast hn) (ten_zpow_pos k)
    have := log_lt_of_abs_lt hx hlt
    exact max_le (by omega) hk

/-- The result of an operation has a coefficient within the precision. -/
theorem exists_round_eq : ∃ n k : ℤ, |n| < 10 ^ c.prec ∧ c.etiny ≤ k ∧ c.round x = n * 10 ^ k := by
  have hten : (1 : ℤ) < 10 ^ c.prec := one_lt_pow₀ (by norm_num) c.prec_pos.ne'
  by_cases hx : x = 0
  · exact ⟨0, c.etiny, by simp, le_rfl, by simp [hx]⟩
  rw [round_of_ne c hx, roundAt]
  set e := c.exponent x
  have he : c.etiny ≤ e := c.etiny_le_exponent x
  have hlt : |x / 10 ^ e| ≤ ((10 ^ c.prec : ℤ) : ℚ) := by
    rw [abs_div, abs_of_pos (ten_zpow_pos e), div_le_iff₀ (ten_zpow_pos e)]
    push_cast
    rw [← zpow_natCast, ← zpow_add₀ (by norm_num)]
    refine (lt_ten_zpow_log x).le.trans (zpow_le_zpow_right₀ (by norm_num) ?_)
    have : Int.log 10 |x| - ((c.prec : ℤ) - 1) ≤ e := le_max_left _ _
    omega
  obtain ⟨hlo, hhi⟩ := abs_le.mp hlt
  have hle : |roundHalfEven (x / 10 ^ e)| ≤ 10 ^ c.prec := by
    apply abs_le.mpr
    constructor
    · rw [← roundHalfEven_intCast (-10 ^ c.prec)]
      exact roundHalfEven_mono (by rwa [Int.cast_neg])
    · rw [← roundHalfEven_intCast (10 ^ c.prec)]
      exact roundHalfEven_mono hhi
  rcases hle.lt_or_eq with h | h
  · exact ⟨_, e, h, he, rfl⟩
  · -- the coefficient was rounded up to a power of ten
    have hsum : (10 : ℚ) ^ (c.prec + e) = 10 ^ c.prec * 10 ^ e := by
      rw [zpow_add₀ (by norm_num), zpow_natCast]
    rcases eq_or_eq_neg_of_abs_eq h with h' | h'
    · exact ⟨1, c.prec + e, by simpa using hten, by omega, by rw [h', hsum]; push_cast; ring⟩
    · exact ⟨-1, c.prec + e, by simpa using hten, by omega, by rw [h', hsum]; push_cast; ring⟩

@[simp] theorem round_round (x : ℚ) : c.round (c.round x) = c.round x := by
  obtain ⟨n, k, hn, hk, h⟩ := c.exists_round_eq x
  rw [h, c.round_int_mul hn hk]

theorem round_nonneg {x : ℚ} (hx : 0 ≤ x) : 0 ≤ c.round x := by
  unfold round
  split_ifs
  · exact le_refl 0
  · exact roundAt_nonneg hx

theorem exponent_mono {x y : ℚ} (hx : 0 < x) (hxy : x ≤ y) : c.exponent x ≤ c.exponent y := by
  rw [exponent, exponent, abs_of_pos hx, abs_of_pos (hx.trans_le hxy)]
  exact max_le_max (sub_le_sub_right (Int.log_mono_right hx hxy) _) le_rfl

/-- **Monotonicity.** A power of ten between two values of different exponents is kept by both
roundings and separates their results. -/
theorem round_mono {x y : ℚ} (hx : 0 ≤ x) (hxy : x ≤ y) : c.round x ≤ c.round y := by
  rcases hx.eq_or_lt with rfl | hx
  · simpa using c.round_nonneg hxy
  have hy : 0 < y := hx.trans_le hxy
  rw [round_of_ne c hx.ne', round_of_ne c hy.ne']
  rcases (c.exponent_mono hx hxy).eq_or_lt with heq | hlt
  · rw [heq]; exact roundAt_mono _ hxy
  have hpp := c.prec_pos
  have hey : c.exponent y = Int.log 10 |y| - (c.prec - 1) := by
    have hx' := c.etiny_le_exponent x
    rcases max_choice (Int.log 10 |y| - ((c.prec : ℤ) - 1)) c.etiny with h | h
    · exact h
    · have hy' : c.exponent y = c.etiny := h
      omega
  have hlog : Int.log 10 |x| < Int.log 10 |y| := by
    have : Int.log 10 |x| - ((c.prec : ℤ) - 1) ≤ c.exponent x := le_max_left _ _
    omega
  have hxlt : x ≤ 10 ^ Int.log 10 |y| := by
    have h1 := lt_ten_zpow_log x
    rw [abs_of_pos hx] at h1 hlog
    exact (h1.trans_le (zpow_le_zpow_right₀ (by norm_num) (by omega))).le
  have hyge : (10 : ℚ) ^ Int.log 10 |y| ≤ y := by
    simpa [abs_of_pos hy] using ten_zpow_log_le hy.ne'
  calc roundAt (c.exponent x) x
      ≤ roundAt (c.exponent x) (10 ^ Int.log 10 |y|) := roundAt_mono _ hxlt
    _ = roundAt (c.exponent y) (10 ^ Int.log 10 |y|) := by
        rw [roundAt_ten_zpow (by omega), roundAt_ten_zpow (by omega)]
    _ ≤ roundAt (c.exponent y) y := roundAt_mono _ hyge

theorem round_monotone : Monotone c.round := by
  intro x y hxy
  rcases le_total 0 x with hx | hx
  · exact c.round_mono hx hxy
  rcases le_total 0 y with hy | hy
  · have hneg := c.round_nonneg (neg_nonneg.mpr hx)
    rw [round_neg] at hneg
    exact (neg_nonneg.mp hneg).trans (c.round_nonneg hy)
  · have hneg := c.round_mono (neg_nonneg.mpr hy) (neg_le_neg hxy)
    rw [round_neg, round_neg] at hneg
    exact neg_le_neg_iff.mp hneg

theorem round_abs : c.round |x| = |c.round x| := by
  rcases le_total 0 x with hx | hx
  · rw [abs_of_nonneg hx, abs_of_nonneg (c.round_nonneg hx)]
  · have hround := c.round_nonneg (neg_nonneg.mpr hx)
    rw [round_neg] at hround
    rw [abs_of_nonpos hx, round_neg, abs_of_nonpos (neg_nonneg.mp hround)]

/-! ### Overflow -/

/-- The operation whose exact value is `x` overflows: its result has too large an exponent. -/
def Overflows : Prop := c.round x ≠ 0 ∧ c.emax < Int.log 10 |c.round x|
  deriving Decidable

/-- The largest number of the context. -/
def largest : ℚ := ((10 ^ c.prec - 1 : ℤ) : ℚ) * 10 ^ (c.emax - (c.prec - 1))

theorem largest_lt : c.largest < 10 ^ (c.emax + 1) := by
  have he : c.emax + 1 = c.prec + (c.emax - (c.prec - 1)) := by ring
  rw [largest, he, zpow_add₀ (by norm_num), zpow_natCast]
  refine mul_lt_mul_of_pos_right ?_ (ten_zpow_pos _)
  push_cast
  linarith

theorem not_overflows_of_abs_le {x : ℚ} (htiny : c.etiny ≤ c.emax - (c.prec - 1))
    (hx : |x| ≤ c.largest) : ¬ c.Overflows x := by
  rintro ⟨hne, hlt⟩
  have hten : (1 : ℤ) ≤ 10 ^ c.prec := one_le_pow₀ (by norm_num)
  have hlargest : c.round c.largest = c.largest :=
    c.round_int_mul (by rw [abs_of_nonneg (by linarith)]; linarith) htiny
  have hround : |c.round x| < 10 ^ (c.emax + 1) := by
    rw [← round_abs]
    exact ((c.round_mono (abs_nonneg x) hx).trans_eq hlargest).trans_lt c.largest_lt
  have := log_lt_of_abs_lt hne hround
  omega

end Context

end Decimal
