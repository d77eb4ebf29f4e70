import LotusCore.Decimal.Round

/-!
# Fixed-point decimals

A number column holds the multiples of `10 ^ (-s)` below a bound. Values computed in a wider
context are rounded onto that grid.

* `OnGrid s x`: `x` has at most `s` fractional digits.
* `quantize s x`: the grid value nearest to `x`; `truncate s x`: the next one towards zero.
* **`quantize_round_mul_round_div`**: a grid value survives division by a quantity followed by
  multiplication with the same quantity, although both results are rounded.
-/

namespace Decimal

/-- `x` is a multiple of `10 ^ (-s)`. -/
def OnGrid (s : ℕ) (x : ℚ) : Prop := ∃ n : ℤ, x = n * 10 ^ (-(s : ℤ))

/-- The multiple of `10 ^ (-s)` nearest to `x`. -/
def quantize (s : ℕ) (x : ℚ) : ℚ := roundAt (-(s : ℤ)) x

/-- The multiple of `10 ^ (-s)` next to `x` towards zero. -/
def truncate (s : ℕ) (x : ℚ) : ℚ :=
  (if 0 ≤ x then ⌊x / 10 ^ (-(s : ℤ))⌋ else ⌈x / 10 ^ (-(s : ℤ))⌉) * 10 ^ (-(s : ℤ))

section Grid

variable {s : ℕ} {x y : ℚ}

theorem onGrid_quantize (s : ℕ) (x : ℚ) : OnGrid s (quantize s x) := ⟨_, rfl⟩

theorem quantize_of_onGrid (h : OnGrid s x) : quantize s x = x := by
  obtain ⟨n, rfl⟩ := h
  exact roundAt_int_mul _ n

theorem onGrid_iff_quantize : OnGrid s x ↔ quantize s x = x :=
  ⟨quantize_of_onGrid, fun h => h ▸ onGrid_quantize s x⟩

instance (s : ℕ) (x : ℚ) : Decidable (OnGrid s x) :=
  decidable_of_iff (quantize s x = x) onGrid_iff_quantize.symm

theorem quantize_mono (s : ℕ) : Monotone (quantize s) := roundAt_mono _

theorem quantize_neg (x : ℚ) : quantize s (-x) = -quantize s x := roundAt_neg _ x

theorem quantize_nonneg (h : 0 ≤ x) : 0 ≤ quantize s x := roundAt_nonneg h

theorem abs_quantize_sub_le (s : ℕ) (x : ℚ) : |quantize s x - x| ≤ 10 ^ (-(s : ℤ)) / 2 :=
  abs_roundAt_sub_le _ x

theorem quantize_eq_of_abs_lt (hy : OnGrid s y) (h : |x - y| < 10 ^ (-(s : ℤ)) / 2) :
    quantize s x = y := by
  obtain ⟨n, rfl⟩ := hy
  exact roundAt_eq_of_abs_lt h

theorem OnGrid.zero (s : ℕ) : OnGrid s 0 := ⟨0, by simp⟩

theorem OnGrid.add (hx : OnGrid s x) (hy : OnGrid s y) : OnGrid s (x + y) := by
  obtain ⟨n, rfl⟩ := hx
  obtain ⟨m, rfl⟩ := hy
  exact ⟨n + m, by push_cast; ring⟩

theorem OnGrid.neg (hx : OnGrid s x) : OnGrid s (-x) := by
  obtain ⟨n, rfl⟩ := hx
  exact ⟨-n, by push_cast; ring⟩

theorem OnGrid.sub (hx : OnGrid s x) (hy : OnGrid s y) : OnGrid s (x - y) := by
  simpa [sub_eq_add_neg] using hx.add hy.neg

theorem OnGrid.list_sum {l : List ℚ} (h : ∀ x ∈ l, OnGrid s x) : OnGrid s l.sum := by
  induction l with
  | nil => exact OnGrid.zero s
  | cons a l ih =>
    rw [List.sum_cons]
    exact (h a (by simp)).add (ih fun x hx => h x (by simp [hx]))

theorem OnGrid.quantum_le_sub (hx : OnGrid s x) (hy : OnGrid s y) (h : x < y) :
    (10 : ℚ) ^ (-(s : ℤ)) ≤ y - x := by
  obtain ⟨n, rfl⟩ := hx
  obtain ⟨m, rfl⟩ := hy
  have hp := ten_zpow_pos (-(s : ℤ))
  have hnm : (n : ℚ) < m := lt_of_mul_lt_mul_right h hp.le
  have hnm' : (n : ℚ) + 1 ≤ m := by exact_mod_cast hnm
  nlinarith

theorem Context.onGrid_round (c : Context) (hx : OnGrid s x) : OnGrid s (c.round x) := by
  by_cases h0 : x = 0
  · rw [h0, Context.round, if_pos rfl]
    exact OnGrid.zero s
  rw [c.round_of_ne h0]
  by_cases he : c.exponent x ≤ -(s : ℤ)
  · -- the digits reach below the grid
    obtain ⟨n, hn⟩ := hx
    have hexact : roundAt (c.exponent x) x = x := by
      generalize c.exponent x = e at he
      rw [hn, roundAt_int_mul_of_le he]
    rw [hexact]
    exact ⟨n, hn⟩
  · obtain ⟨m, hm⟩ := ten_zpow_eq_int_mul (not_le.mp he).le
    refine ⟨roundHalfEven (x / 10 ^ c.exponent x) * m, ?_⟩
    rw [roundAt, hm]
    push_cast
    ring

theorem Context.round_of_onGrid (c : Context) {d : ℕ} (hx : OnGrid s x)
    (hb : |x| < 10 ^ ((d : ℤ) - s)) (hd : d ≤ c.prec) (ht : c.etiny ≤ -(s : ℤ)) :
    c.round x = x := by
  obtain ⟨n, rfl⟩ := hx
  apply c.round_int_mul _ ht
  rw [abs_mul, abs_of_pos (ten_zpow_pos _), sub_eq_add_neg, zpow_add₀ (by norm_num)] at hb
  have h1 := lt_of_mul_lt_mul_right hb (ten_zpow_pos _).le
  rw [zpow_natCast] at h1
  have h2 : |n| < 10 ^ d := by exact_mod_cast h1
  exact h2.trans_le (pow_le_pow_right₀ (by norm_num) hd)

end Grid

/-! ## Division and multiplication by the same quantity -/

section Recompose

variable (c : Context) {s : ℕ} {v q b : ℚ}

theorem abs_mul_round_div_sub_le (hq : 0 < q) :
    |q * c.round (v / q) - v| ≤ (|v| * 10 ^ (1 - (c.prec : ℤ)) + q * 10 ^ c.etiny) / 2 := by
  have h := mul_le_mul_of_nonneg_left (c.abs_round_sub_le (v / q)) hq.le
  have hv : q * c.round (v / q) - v = q * (c.round (v / q) - v / q) := by field_simp
  rw [hv, abs_mul, abs_of_pos hq]
  refine h.trans (le_of_eq ?_)
  rw [abs_div, abs_of_pos hq]
  field_simp

/-- **Recomposition.** The value `v`, divided by `q` and multiplied by `q` again, is rounded back to
itself as long as the rounding errors stay below half a quantum. -/
theorem quantize_round_mul_round_div (hv : OnGrid s v) (hvb : |v| ≤ b) (hq : 0 < q) (hqb : q ≤ b)
    (hb : 1 ≤ b) (hprec : b * 10 ^ (1 - (c.prec : ℤ)) ≤ 10 ^ (-(s : ℤ)) / 16)
    (htiny : b * 10 ^ c.etiny ≤ 10 ^ (-(s : ℤ)) / 16) :
    quantize s (c.round (q * c.round (v / q))) = v := by
  apply quantize_eq_of_abs_lt hv
  set ε : ℚ := 10 ^ (1 - (c.prec : ℤ)) with hε
  set τ : ℚ := 10 ^ c.etiny with hτ
  set u : ℚ := 10 ^ (-(s : ℤ)) with hu
  have hε0 : 0 < ε := ten_zpow_pos _
  have hτ0 : 0 < τ := ten_zpow_pos _
  have hu0 : 0 < u := ten_zpow_pos _
  have hu1 : u ≤ 1 := by
    rw [hu, zpow_neg, zpow_natCast]
    exact inv_le_one_of_one_le₀ (one_le_pow₀ (by norm_num))
  set z := q * c.round (v / q) with hz
  have h1 : |z - v| ≤ (|v| * ε + q * τ) / 2 := abs_mul_round_div_sub_le c hq
  have h2 : |c.round z - z| ≤ (|z| * ε + τ) / 2 := c.abs_round_sub_le z
  have hvε : |v| * ε ≤ b * ε := mul_le_mul_of_nonneg_right hvb hε0.le
  have hqτ : q * τ ≤ b * τ := mul_le_mul_of_nonneg_right hqb hτ0.le
  have hττ : τ ≤ b * τ := le_mul_of_one_le_left hτ0.le hb
  have hεε : ε ≤ b * ε := le_mul_of_one_le_left hε0.le hb
  have hzv : |z| ≤ |v| + u / 16 := by
    have := abs_sub_abs_le_abs_sub z v
    linarith
  have hzε : |z| * ε ≤ b * ε + u / 16 := by
    have h3 : |z| * ε ≤ (|v| + u / 16) * ε := mul_le_mul_of_nonneg_right hzv hε0.le
    have h4 : u / 16 * ε ≤ u / 16 * 1 := by
      apply mul_le_mul_of_nonneg_left _ (by linarith)
      linarith
    linarith
  have h5 : |c.round z - v| ≤ |c.round z - z| + |z - v| := abs_sub_le _ _ _
  linarith

end Recompose

end Decimal
