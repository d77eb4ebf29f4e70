import LotusCore.Decimal.Fixed

/-!
# Rounded shares

The part of a value that one number is of another, computed the way a decimal context does it: a
product, then a quotient, each rounded to the precision of the context.

* `Context.share`: the rounded share.
* `Context.share_mono_part`, `Context.share_neg`: order and sign of shares.
* `Context.abs_share_sub_le`: a share is exact up to a rounding error.
* **`Context.quantize_share_le`**: a share of a grid value, rounded to the grid, is never above it.
-/

namespace Decimal

namespace Context

variable (c : Context) {v v' part part' whole u b : ℚ} {s : ℕ}

/-- The part of `v` that `part` is of `whole`, product and quotient rounded. -/
def share (v part whole : ℚ) : ℚ := c.round (c.round (v * part) / whole)

theorem share_neg : c.share (-v) part whole = -c.share v part whole := by
  unfold share
  rw [neg_mul, c.round_neg, neg_div, c.round_neg]

theorem share_nonneg (hv : 0 ≤ v) (hp : 0 ≤ part) (hw : 0 ≤ whole) : 0 ≤ c.share v part whole :=
  c.round_nonneg (div_nonneg (c.round_nonneg (mul_nonneg hv hp)) hw)

theorem share_mono_part (hv : 0 ≤ v) (hp : 0 ≤ part) (hle : part ≤ part') (hw : 0 ≤ whole) :
    c.share v part whole ≤ c.share v part' whole := by
  have hprod : 0 ≤ c.round (v * part) := c.round_nonneg (mul_nonneg hv hp)
  refine c.round_mono (div_nonneg hprod hw) (div_le_div_of_nonneg_right ?_ hw)
  exact c.round_mono (mul_nonneg hv hp) (mul_le_mul_of_nonneg_left hle hv)

/-- **Error of a share.** Up to the error of its product, a share is exact to the precision. -/
theorem abs_share_sub_le (hvb : |v * part / whole| ≤ b) (hb : 1 ≤ b) (hw : 0 < whole) (hu : u ≤ 1)
    (hprec : b * 10 ^ (1 - (c.prec : ℤ)) ≤ u / 16) (htiny : 10 ^ c.etiny ≤ u / 16)
    (hprod : |c.round (v * part) - v * part| ≤ whole * (u / 16)) :
    |c.share v part whole - v * part / whole| ≤ u / 4 := by
  set ε : ℚ := 10 ^ (1 - (c.prec : ℤ)) with hε
  set τ : ℚ := 10 ^ c.etiny with hτ
  have hε0 : 0 < ε := ten_zpow_pos _
  have hτ0 : 0 < τ := ten_zpow_pos _
  set x := v * part / whole with hx
  set y := c.round (v * part) / whole with hy
  -- the quotient of the rounded product
  have hyx : |y - x| ≤ u / 16 := by
    rw [hy, hx, ← sub_div, abs_div, abs_of_pos hw, div_le_iff₀ hw]
    linarith
  have hquot : |c.round y - y| ≤ (|y| * ε + τ) / 2 := c.abs_round_sub_le y
  have hεε : ε ≤ b * ε := le_mul_of_one_le_left hε0.le hb
  have hyb : |y| ≤ b + u / 16 := by
    have := abs_sub_abs_le_abs_sub y x
    linarith
  have hyε : |y| * ε ≤ b * ε + u / 16 := by
    have h1 : |y| * ε ≤ (b + u / 16) * ε := mul_le_mul_of_nonneg_right hyb hε0.le
    have h2 : u / 16 * ε ≤ u / 16 * 1 := by
      refine mul_le_mul_of_nonneg_left ?_ (hτ0.le.trans htiny)
      linarith
    linarith
  have htri : |c.share v part whole - x| ≤ |c.round y - y| + |y - x| := abs_sub_le _ _ _
  linarith

theorem quantize_share_self (hv : OnGrid s v) (hvb : |v| ≤ b) (hb : 1 ≤ b) (hw : 0 < whole)
    (hprec : b * 10 ^ (1 - (c.prec : ℤ)) ≤ 10 ^ (-(s : ℤ)) / 16)
    (htiny : 10 ^ c.etiny ≤ 10 ^ (-(s : ℤ)) / (16 : ℚ))
    (hprod : |c.round (v * whole) - v * whole| ≤ whole * (10 ^ (-(s : ℤ)) / 16)) :
    quantize s (c.share v whole whole) = v := by
  have hu1 : (10 : ℚ) ^ (-(s : ℤ)) ≤ 1 := by
    rw [zpow_neg, zpow_natCast]
    exact inv_le_one_of_one_le₀ (one_le_pow₀ (by norm_num))
  have hpos : (0 : ℚ) < 10 ^ (-(s : ℤ)) := ten_zpow_pos _
  apply quantize_eq_of_abs_lt hv
  have hself : v * whole / whole = v := mul_div_cancel_right₀ v hw.ne'
  have h := c.abs_share_sub_le (by rwa [hself]) hb hw hu1 hprec htiny hprod
  rw [hself] at h
  linarith

/-- **Shares of a grid value.** Rounded to the grid, a share is nonnegative and at most the
value. -/
theorem quantize_share_le (hv : OnGrid s v) (hv0 : 0 ≤ v) (hvb : |v| ≤ b) (hb : 1 ≤ b)
    (hp : 0 ≤ part) (hle : part ≤ whole) (hw : 0 < whole)
    (hprec : b * 10 ^ (1 - (c.prec : ℤ)) ≤ 10 ^ (-(s : ℤ)) / 16)
    (htiny : 10 ^ c.etiny ≤ 10 ^ (-(s : ℤ)) / (16 : ℚ))
    (hprod : |c.round (v * whole) - v * whole| ≤ whole * (10 ^ (-(s : ℤ)) / 16)) :
    0 ≤ quantize s (c.share v part whole) ∧ quantize s (c.share v part whole) ≤ v := by
  refine ⟨quantize_nonneg (c.share_nonneg hv0 hp hw.le), ?_⟩
  have hmono := quantize_mono s (c.share_mono_part hv0 hp hle hw.le)
  rwa [c.quantize_share_self hv hvb hb hw hprec htiny hprod] at hmono

end Context

end Decimal
