import LotusCore.Decimal.Fixed

/-!
# A value divided and multiplied by the same quantity

A value is split into a unit value and a quantity, and put together again, with a rounding after the
division and one after the multiplication.

* `Context.SurvivesDivision`: the unit value is exact, or its last digit is small enough.
* **`Context.round_mul_round_div`**: such a value comes back.
* `Context.foldl_round_add_of_onGrid`: a running sum is exact while it fits.
-/

namespace Decimal

namespace Context

variable (c : Context) {v w q : ℚ}

/-- The unit value `v / q` is a number of the context, or `q` units of its last digit are less than
one unit of the last digit of `v`. A power of ten has numbers of more digits below it and is left
out of the second case. -/
def SurvivesDivision (v q : ℚ) : Prop :=
  (∃ n k : ℤ, |n| < 10 ^ c.prec ∧ c.etiny ≤ k ∧ v / q = n * 10 ^ k) ∨
    |v| ≠ 10 ^ Int.log 10 |v| ∧ q * 10 ^ c.exponent (v / q) < 10 ^ c.exponent v

theorem log_eq_of_mem {x : ℚ} {k : ℤ} (hle : (10 : ℚ) ^ k ≤ |x|) (hlt : |x| < 10 ^ (k + 1)) :
    Int.log 10 |x| = k := by
  have hpos : 0 < |x| := (ten_zpow_pos k).trans_le hle
  have hup := log_lt_of_abs_lt (abs_pos.mp hpos) hlt
  have hlow : k ≤ Int.log 10 |x| :=
    (Int.zpow_le_iff_le_log (by norm_num) hpos).mp (by exact_mod_cast hle)
  omega

/-- A number near one of the context that is no power of ten has the same exponent. -/
theorem exponent_eq_of_near {n : ℤ} (hv : v = n * 10 ^ c.exponent v) (h0 : v ≠ 0)
    (hten : |v| ≠ 10 ^ Int.log 10 |v|) (hnear : |w - v| < 10 ^ c.exponent v / 2) :
    c.exponent w = c.exponent v := by
  set e := c.exponent v
  set k := Int.log 10 |v| with hk
  have hp := ten_zpow_pos e
  have habs : |v| = |n| * (10 : ℚ) ^ e := by
    rw [hv, abs_mul, abs_of_pos hp, Int.cast_abs]
  have hlow : (10 : ℚ) ^ k ≤ |v| := ten_zpow_log_le h0
  have hup : |v| < 10 ^ (k + 1) := lt_ten_zpow_log v
  -- the powers of ten around the value are multiples of its last digit
  have hek : e ≤ k := by
    have hn : (1 : ℤ) ≤ |n| := by
      refine Int.one_le_abs fun hn => h0 ?_
      rw [hv, hn, Int.cast_zero, zero_mul]
    have hle : (10 : ℚ) ^ e ≤ |v| := by
      rw [habs]
      exact le_mul_of_one_le_left hp.le (by exact_mod_cast hn)
    have := (zpow_lt_zpow_iff_right₀ (by norm_num : (1 : ℚ) < 10)).mp (hle.trans_lt hup)
    omega
  obtain ⟨m, hm⟩ := ten_zpow_eq_int_mul hek
  obtain ⟨m', hm'⟩ := ten_zpow_eq_int_mul (hek.trans (by omega : k ≤ k + 1))
  have hstep : ∀ a b : ℤ, (a : ℚ) * 10 ^ e < b * 10 ^ e →
      (a : ℚ) * 10 ^ e + 10 ^ e ≤ b * 10 ^ e := by
    intro a b hab
    have hlt : a < b := by exact_mod_cast lt_of_mul_lt_mul_right hab hp.le
    have hle : (a : ℚ) + 1 ≤ b := by exact_mod_cast hlt
    have := mul_le_mul_of_nonneg_right hle hp.le
    linarith
  have hgap : (10 : ℚ) ^ k + 10 ^ e ≤ |v| := by
    have hlt := lt_of_le_of_ne hlow (Ne.symm hten)
    rw [habs, hm] at hlt ⊢
    exact_mod_cast hstep m |n| (by exact_mod_cast hlt)
  have hgap' : |v| + 10 ^ e ≤ 10 ^ (k + 1) := by
    rw [habs, hm'] at hup ⊢
    exact_mod_cast hstep |n| m' (by exact_mod_cast hup)
  have habs' := abs_le.mp (abs_abs_sub_abs_le w v)
  have hlog : Int.log 10 |w| = k := log_eq_of_mem (by linarith) (by linarith)
  rw [exponent, hlog]
  rfl

/-- **Recomposition.** A value that survives the division comes back exactly. -/
theorem round_mul_round_div (hv : c.round v = v) (hq : 0 < q) (h : c.SurvivesDivision v q) :
    c.round (c.round (v / q) * q) = v := by
  by_cases h0 : v = 0
  · simp [h0]
  rcases h with ⟨n, k, hn, hk, hunit⟩ | ⟨hten, hlast⟩
  · rw [hunit, c.round_int_mul hn hk, ← hunit, div_mul_cancel₀ v hq.ne', hv]
  · have hcoeff : v = roundHalfEven (v / 10 ^ c.exponent v) * 10 ^ c.exponent v :=
      hv.symm.trans (c.round_of_ne h0)
    have hnear : |c.round (v / q) * q - v| < 10 ^ c.exponent v / 2 := by
      have herr := abs_roundAt_sub_le (c.exponent (v / q)) (v / q)
      rw [← c.round_of_ne (div_ne_zero h0 hq.ne')] at herr
      have hscale : c.round (v / q) * q - v = (c.round (v / q) - v / q) * q := by
        rw [sub_mul, div_mul_cancel₀ v hq.ne']
      rw [hscale, abs_mul, abs_of_pos hq]
      have := mul_le_mul_of_nonneg_right herr hq.le
      linarith
    rw [c.round_eq_roundAt, c.exponent_eq_of_near hcoeff h0 hten hnear]
    exact (roundAt_eq_of_abs_lt (by rwa [← hcoeff])).trans hcoeff.symm

end Context

theorem Context.foldl_round_add_of_onGrid (c : Context) {s d : ℕ} (hd : d ≤ c.prec)
    (ht : c.etiny ≤ -(s : ℤ)) {l : List ℚ} (hl : ∀ x ∈ l, OnGrid s x) {t : ℚ} (htotal : OnGrid s t)
    (hsum : |t| + (l.map abs).sum < 10 ^ ((d : ℤ) - s)) :
    l.foldl (fun t x => c.round (t + x)) t = t + l.sum := by
  induction l generalizing t with
  | nil => simp
  | cons x rest ih =>
    obtain ⟨hgrid, hrest⟩ := List.forall_mem_cons.mp hl
    rw [List.map_cons, List.sum_cons] at hsum
    have hrest0 : 0 ≤ (rest.map abs).sum := by
      refine List.sum_nonneg fun y hy => ?_
      obtain ⟨z, -, rfl⟩ := List.mem_map.mp hy
      exact abs_nonneg z
    have htri := abs_add_le t x
    have hadd : c.round (t + x) = t + x :=
      c.round_of_onGrid (htotal.add hgrid) (by linarith) hd ht
    rw [List.foldl_cons, hadd, ih hrest (htotal.add hgrid) (by linarith), List.sum_cons, add_assoc]

end Decimal
