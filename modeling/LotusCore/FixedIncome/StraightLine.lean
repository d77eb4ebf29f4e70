import LotusCore.FixedIncome.Schedule
import Mathlib

/-!
# Straight-line schedules

A straight-line period takes the share of the remaining distance that its year fraction is of the
remaining weight. The distance is a ledger amount and the share is rounded to the ledger, so it
never passes the redemption value, and the last period takes exactly what is left.

* `ShareOf`: the shares the context computes without cutting off or overflowing a product.
* `ShareOf.quantize_mem`: a rounded share of a distance lies between nothing and the distance.
* `calculatePeriod_straightLine`: one period moves the cost towards the redemption value.
* `Amortizes`: every period begins where the last one ended, and the last one ends at redemption.
* `calculatePeriods_straightLine`: the loop amortizes.
* **`straightLine_schedule_exact`**: the schedule of every input whose amounts the ledger holds and
  whose year fractions the context adds exactly.
-/

namespace LotusCore

open Exec Decimal Ledger

/-! ## Ledger amounts -/

/-- The largest amount a ledger column holds. -/
def ledgerMax : ℚ := 10 ^ 8 - 1 / 10 ^ 10

theorem Storable.abs_le_ledgerMax {x : ℚ} (hx : Storable x) : |x| ≤ ledgerMax := by
  obtain ⟨hgrid, hlt⟩ := storable_iff.mp hx
  have hgrid' : OnGrid 10 |x| := by
    rcases abs_choice x with h | h <;> rw [h]
    · exact hgrid
    · exact hgrid.neg
  have hbound : OnGrid 10 (10 ^ 8 : ℚ) := ⟨10 ^ 18, by norm_num⟩
  have h := hgrid'.quantum_le_sub hbound hlt
  have hq : (10 : ℚ) ^ (-((10 : ℕ) : ℤ)) = 1 / 10 ^ 10 := by norm_num
  rw [hq] at h
  unfold ledgerMax
  linarith

theorem storable_of_mem_uIcc {x y z : ℚ} (hx : Storable x) (hy : Storable y) (hz : OnGrid 10 z)
    (h : z ∈ Set.uIcc x y) : Storable z := by
  refine storable_iff.mpr ⟨hz, ?_⟩
  have hx' := abs_lt.mp (storable_bound hx)
  have hy' := abs_lt.mp (storable_bound hy)
  rcases Set.mem_uIcc.mp h with ⟨h1, h2⟩ | ⟨h1, h2⟩
  · exact abs_lt.mpr ⟨by linarith, by linarith⟩
  · exact abs_lt.mpr ⟨by linarith, by linarith⟩

/-! ## The exponents of the context -/

/-- The last place of a year fraction whose products with ledger amounts the context does not cut
off. -/
def fractionPlace : ℤ := (ledgerPolicy "" "").arithmeticContext.etiny + 10

/-- The largest number of the context. -/
def contextMax : ℚ := (ledgerPolicy "" "").arithmeticContext.largest

theorem workingValue_of_abs_le {x : ℚ} (h : |x| ≤ contextMax) :
    workingValue x = .ok (workingRound x) := by
  have htiny : (ledgerPolicy "" "").arithmeticContext.etiny ≤
      (ledgerPolicy "" "").arithmeticContext.emax -
        ((ledgerPolicy "" "").arithmeticContext.prec - 1) := by decide
  exact if_neg (Context.not_overflows_of_abs_le _ htiny h)

theorem le_contextMax {x : ℚ} (h : x ≤ 10 ^ 9) : x ≤ contextMax := by
  have hplaces : (1 : ℚ) ≤ 10 ^ ((999999 : ℤ) - (64 - 1)) :=
    one_le_zpow₀ (by norm_num) (by norm_num)
  have hmax : contextMax = ((10 ^ 64 - 1 : ℤ) : ℚ) * 10 ^ ((999999 : ℤ) - (64 - 1)) := rfl
  have hdigits : (10 : ℚ) ^ 9 ≤ ((10 ^ 64 - 1 : ℤ) : ℚ) := by norm_num
  rw [hmax]
  exact (h.trans hdigits).trans (le_mul_of_one_le_right (by norm_num) hplaces)

/-! ## Shares of a distance -/

/-- A year fraction of a weight whose share of a distance the context computes: multiples of one
place that products keep, and no overflow. -/
structure ShareOf (distance fraction weight : ℚ) : Prop where
  pos : 0 < fraction
  le : fraction ≤ weight
  exists_place : ∃ k, fractionPlace ≤ k ∧ (∃ n : ℤ, fraction = n * 10 ^ k) ∧
    ∃ n : ℤ, weight = n * 10 ^ k
  product_le : |distance| * fraction ≤ contextMax

section Share

variable {d part whole : ℚ}

/-- A product of a ledger amount and a multiple of a kept place. -/
theorem abs_workingRound_mul_place_sub_le {k : ℤ} (hd : Storable d) (hk : fractionPlace ≤ k)
    (hpart : ∃ n : ℤ, part = n * 10 ^ k) (hp : 0 ≤ part) (hle : part ≤ whole) {s : ℕ}
    (hs : s ≤ 40) :
    |workingRound (d * part) - d * part| ≤ whole * (10 ^ (-(s : ℤ)) / 16) := by
  obtain ⟨m, hm⟩ := hd.onGrid
  obtain ⟨n, hn⟩ := hpart
  have hprod : d * part = ((m * n : ℤ) : ℚ) * 10 ^ (k - 10) := by
    have hscale : -((transactionPersistencePrecision.scale : ℕ) : ℤ) = -10 := rfl
    rw [hm, hn, hscale, sub_eq_add_neg, zpow_add₀ (by norm_num)]
    push_cast
    ring
  have hrel := abs_mul_precision_le (storable_bound hd).le hp hle hs
  rw [hprod] at hrel ⊢
  have hkept : (ledgerPolicy "" "").arithmeticContext.etiny ≤ k - 10 := by
    unfold fractionPlace at hk
    omega
  have h := (ledgerPolicy "" "").arithmeticContext.abs_round_int_mul_sub_le (n := m * n) hkept
  have hpos := ten_zpow_pos (1 - ((ledgerPolicy "" "").arithmeticContext.prec : ℤ))
  refine h.trans (le_trans ?_ hrel)
  exact half_le_self (mul_nonneg (abs_nonneg _) hpos.le)

theorem ShareOf.quantize_mem (h : ShareOf d part whole) (hd : Storable d) :
    quantize 10 (workingShare d part whole) ∈ Set.uIcc 0 d := by
  obtain ⟨k, hk, -, hwhole⟩ := h.exists_place
  have hpos : 0 < whole := h.pos.trans_le h.le
  have hshare : ∀ v, Storable v → 0 ≤ v → 0 ≤ quantize 10 (workingShare v part whole) ∧
      quantize 10 (workingShare v part whole) ≤ v := fun v hv hv0 =>
    quantize_workingShare_le_of_product hv hv0 h.pos.le h.le hpos
      (abs_workingRound_mul_place_sub_le hv hk hwhole hpos.le le_rfl (by norm_num))
  rcases le_total 0 d with h0 | h0
  · exact Set.mem_uIcc.mpr (.inl (hshare d hd h0))
  · obtain ⟨hlo, hhi⟩ := hshare (-d) hd.neg (neg_nonneg.mpr h0)
    rw [workingShare_neg, quantize_neg] at hlo hhi
    exact Set.mem_uIcc.mpr (.inr ⟨by linarith, by linarith⟩)

theorem mul_div_mem (hp : 0 ≤ part) (hle : part ≤ whole) (hw : 0 < whole) :
    -max 0 (-d) ≤ d * part / whole ∧ d * part / whole ≤ max 0 d := by
  have h0 : 0 ≤ part / whole := div_nonneg hp hw.le
  have h1 : part / whole ≤ 1 := (div_le_one hw).mpr hle
  rw [mul_div_assoc]
  rcases le_total 0 d with hd | hd
  · rw [max_eq_left (neg_nonpos.mpr hd), max_eq_right hd, neg_zero]
    exact ⟨mul_nonneg hd h0, mul_le_of_le_one_right hd h1⟩
  · rw [max_eq_right (neg_nonneg.mpr hd), max_eq_left hd, neg_neg]
    exact ⟨le_mul_of_le_one_right hd h1, mul_nonpos_of_nonpos_of_nonneg hd h0⟩

theorem ShareOf.abs_quotient_le (h : ShareOf d part whole) (hd : Storable d) :
    |workingRound (d * part) / whole| ≤ 10 ^ 9 := by
  obtain ⟨k, hk, hpart, -⟩ := h.exists_place
  have hpos : 0 < whole := h.pos.trans_le h.le
  have hprod := abs_workingRound_mul_place_sub_le hd hk hpart h.pos.le h.le (Nat.zero_le 40)
  have herr : |workingRound (d * part) / whole - d * part / whole| ≤ 1 := by
    rw [← sub_div, abs_div, abs_of_pos hpos, div_le_iff₀ hpos]
    refine hprod.trans ?_
    norm_num
    linarith
  have hexact := abs_mul_div_le (storable_bound hd).le h.pos.le h.le hpos
  have htri := abs_sub_abs_le_abs_sub (workingRound (d * part) / whole) (d * part / whole)
  linarith

theorem ShareOf.bounds (h : ShareOf d part whole) (hd : Storable d) :
    -(max 0 (-d) + 1 / 10 ^ 40) ≤ workingShare d part whole ∧
      workingShare d part whole ≤ max 0 d + 1 / 10 ^ 40 := by
  obtain ⟨k, hk, hpart, -⟩ := h.exists_place
  have hpos : 0 < whole := h.pos.trans_le h.le
  obtain ⟨hlo, hhi⟩ := mul_div_mem (d := d) h.pos.le h.le hpos
  have hexact := abs_mul_div_le (storable_bound hd).le h.pos.le h.le hpos
  have herr := abs_le.mp (abs_workingShare_sub_le hexact hpos
    (abs_workingRound_mul_place_sub_le hd hk hpart h.pos.le h.le le_rfl))
  exact ⟨by linarith, by linarith⟩

end Share

/-- An amount that is within the ledger up to a rounding error is within it once rounded. -/
theorem storable_quantize_workingRound {x : ℚ} (h : |x| ≤ ledgerMax + 1 / 10 ^ 40) :
    Storable (quantize 10 (workingRound x)) := by
  refine storable_iff.mpr ⟨onGrid_quantize 10 _, ?_⟩
  have habs : |quantize 10 (workingRound x)| = quantize 10 (workingRound |x|) := by
    rw [workingRound_abs]
    rcases le_total 0 (workingRound x) with h0 | h0
    · rw [abs_of_nonneg h0, abs_of_nonneg (quantize_nonneg h0)]
    · have hneg := quantize_nonneg (s := 10) (neg_nonneg.mpr h0)
      rw [quantize_neg] at hneg
      rw [abs_of_nonpos h0, quantize_neg, abs_of_nonpos (neg_nonneg.mp hneg)]
  have hmono := quantize_mono 10 (workingRound_mono (abs_nonneg x) h)
  have hconst : quantize 10 (workingRound (ledgerMax + 1 / 10 ^ 40)) = ledgerMax := by
    decide +kernel
  rw [hconst] at hmono
  rw [habs]
  refine hmono.trans_lt ?_
  norm_num [ledgerMax]

/-! ## One period -/

section Period

variable {power : ℚ → ℚ → Option ℚ} {policy : AmortizedCostPolicy}
  {period : AmortizationPeriodInput} {begin redemption weight : ℚ} {annualYield : Option ℚ}
  {isFinal : Bool}

/-- The movement of a straight-line period before rounding: a share of the distance, or all of
it. -/
theorem straightLineMovement_bounds {d fraction : ℚ} (hd : Storable d)
    (hshare : isFinal = false → ShareOf d fraction weight) :
    ∃ raw, straightLineMovement d fraction weight isFinal = .ok raw ∧
      quantize 10 raw ∈ Set.uIcc 0 d ∧ -(max 0 (-d) + 1 / 10 ^ 40) ≤ raw ∧
      raw ≤ max 0 d + 1 / 10 ^ 40 ∧ (isFinal = true → quantize 10 raw = d) := by
  obtain ⟨hgrid, hlt⟩ := storable_iff.mp hd
  have herr : (0 : ℚ) < 1 / 10 ^ 40 := by norm_num
  cases isFinal with
  | true =>
    have hlo := le_max_right 0 (-d)
    have hhi := le_max_right 0 d
    refine ⟨d, rfl, ?_, by linarith, by linarith, fun _ => quantize_of_onGrid hgrid⟩
    rw [quantize_of_onGrid hgrid]
    exact Set.right_mem_uIcc
  | false =>
    have hs := hshare rfl
    have hpos : 0 < weight := hs.pos.trans_le hs.le
    obtain ⟨hlo, hhi⟩ := hs.bounds hd
    have hproduct : |d * fraction| ≤ contextMax := by
      rw [abs_mul, abs_of_pos hs.pos]
      exact hs.product_le
    have hquotient : |workingRound (d * fraction) / weight| ≤ contextMax :=
      le_contextMax (hs.abs_quotient_le hd)
    refine ⟨workingShare d fraction weight, ?_, hs.quantize_mem hd, hlo, hhi, nofun⟩
    refine except_bind_eq_ok.mpr ⟨_, workingValue_of_abs_le hproduct, ?_⟩
    rw [workingQuotient, if_neg hpos.ne']
    exact workingValue_of_abs_le hquotient

variable (power annualYield) in
theorem periodMovement_straightLine (hm : policy.method = .straightLine)
    (hd : Storable (redemption - begin))
    (hcoupon : period.cashCouponLocal + max 0 (redemption - begin) ≤ ledgerMax)
    (hshare : isFinal = false → ShareOf (redemption - begin) period.yearFraction weight) :
    ∃ raw, periodMovement power policy period begin redemption annualYield weight isFinal =
        .ok ⟨none, workingRound (period.cashCouponLocal + raw), raw⟩ ∧
      quantize 10 raw ∈ Set.uIcc 0 (redemption - begin) ∧
      |period.cashCouponLocal + raw| ≤ ledgerMax + 1 / 10 ^ 40 ∧
      (isFinal = true → quantize 10 raw = redemption - begin) := by
  obtain ⟨hgrid, hlt⟩ := storable_iff.mp hd
  obtain ⟨raw, hraw, hmem, hlo, hhi, hall⟩ := straightLineMovement_bounds hd hshare
  have hdistance : workingValue (redemption - begin) = .ok (redemption - begin) := by
    rw [workingValue_of_abs_le (le_contextMax (hlt.le.trans (by norm_num))),
      workingRound_of_onGrid hgrid (hlt.trans (by norm_num))]
  have hincome : |period.cashCouponLocal + raw| ≤ ledgerMax + 1 / 10 ^ 40 := by
    have hmax : max 0 (-(redemption - begin)) ≤ ledgerMax :=
      max_le (by norm_num [ledgerMax]) ((neg_le_abs _).trans hd.abs_le_ledgerMax)
    have h0 := period.coupon_nonneg
    exact abs_le.mpr ⟨by linarith, by linarith⟩
  refine ⟨raw, ?_, hmem, hincome, hall⟩
  unfold periodMovement
  simp only [hm]
  refine except_bind_eq_ok.mpr ⟨_, hdistance, except_bind_eq_ok.mpr ⟨raw, hraw, ?_⟩⟩
  refine except_bind_eq_ok.mpr ⟨_, workingValue_of_abs_le (le_contextMax (hincome.trans ?_)), rfl⟩
  norm_num [ledgerMax]

theorem abs_adjustment_le {raw coupon : ℚ} (h : |coupon + raw| ≤ ledgerMax + 1 / 10 ^ 40) :
    |quantize 10 raw - (quantize 10 (workingRound (coupon + raw)) - quantize 10 coupon)| ≤ 1 := by
  have h1 := abs_le.mp (abs_quantize_sub_le 10 raw)
  have h2 := abs_le.mp (abs_quantize_sub_le 10 coupon)
  have h3 := abs_le.mp (abs_quantize_sub_le 10 (workingRound (coupon + raw)))
  have h4 := abs_le.mp ((ledgerPolicy "" "").arithmeticContext.abs_round_sub_le (coupon + raw))
  have hprec : |coupon + raw| *
      10 ^ (1 - ((ledgerPolicy "" "").arithmeticContext.prec : ℤ)) ≤ 1 / 16 := by
    refine (mul_le_mul_of_nonneg_right (h.trans ?_) (ten_zpow_pos _).le).trans
      (precision_le (le_refl 0 |>.trans (by norm_num : 0 ≤ 40)) |>.trans_eq (by norm_num))
    norm_num [ledgerMax]
  have htiny := etiny_le small_le_one (by norm_num : 0 ≤ 40)
  have hwork : workingRound (coupon + raw) =
      (ledgerPolicy "" "").arithmeticContext.round (coupon + raw) := rfl
  rw [hwork] at h3 ⊢
  generalize (ledgerPolicy "" "").arithmeticContext.round (coupon + raw) = z at *
  norm_num at h1 h2 h3 htiny
  refine abs_le.mpr ⟨?_, ?_⟩ <;> linarith

/-- What a period of a schedule does to the book cost. -/
structure AmortizationPeriodResult.Moves (row : AmortizationPeriodResult) (begin redemption : ℚ) :
    Prop where
  begin_eq : row.beginAmortizedCostLocal = begin
  end_eq : row.endAmortizedCostLocal = begin + row.amortizationAmountLocal
  towards : row.endAmortizedCostLocal ∈ Set.uIcc begin redemption

variable (power annualYield) in
/-- **One period.** A straight-line period completes and moves the cost towards the redemption
value; the last one reaches it. -/
theorem calculatePeriod_straightLine (hm : policy.method = .straightLine) (hb : Storable begin)
    (hb0 : 0 ≤ begin) (hr : Storable redemption) (hr0 : 0 ≤ redemption)
    (hcoupon : period.cashCouponLocal + max 0 (redemption - begin) ≤ ledgerMax)
    (hshare : isFinal = false → ShareOf (redemption - begin) period.yearFraction weight) :
    ∃ row, calculatePeriod power policy period begin redemption annualYield weight isFinal =
        .ok row ∧
      row.periodStartDate = period.periodStartDate ∧ row.periodEndDate = period.periodEndDate ∧
      row.Moves begin redemption ∧ Storable row.endAmortizedCostLocal ∧
      (isFinal = true → row.endAmortizedCostLocal = redemption) := by
  have hd : Storable (redemption - begin) := hr.sub hb hr0 hb0
  obtain ⟨raw, hmove, hmem, hincome, hall⟩ := periodMovement_straightLine power annualYield hm hd
    hcoupon hshare
  -- the amounts of the period are within the ledger
  have hmovement : Storable (quantize 10 raw) :=
    storable_of_mem_uIcc storable_zero hd (onGrid_quantize 10 raw) hmem
  have hinterest := storable_quantize_workingRound hincome
  have hcash : Storable (quantize 10 period.cashCouponLocal) := by
    refine storable_iff.mpr ⟨onGrid_quantize 10 _, ?_⟩
    have hle : period.cashCouponLocal ≤ ledgerMax :=
      (le_add_of_nonneg_right (le_max_left _ _)).trans hcoupon
    have hconst : quantize 10 ledgerMax = ledgerMax := by decide +kernel
    rw [abs_of_nonneg (quantize_nonneg period.coupon_nonneg)]
    refine ((quantize_mono 10 hle).trans_eq hconst).trans_lt ?_
    norm_num [ledgerMax]
  -- the end lies between the begin and the redemption value
  have hend : begin + quantize 10 raw ∈ Set.uIcc begin redemption := by
    rcases Set.mem_uIcc.mp hmem with ⟨h1, h2⟩ | ⟨h1, h2⟩
    · exact Set.mem_uIcc.mpr (.inl ⟨by linarith, by linarith⟩)
    · exact Set.mem_uIcc.mpr (.inr ⟨by linarith, by linarith⟩)
  have hendGrid : OnGrid 10 (begin + quantize 10 raw) :=
    (storable_iff.mp hb).1.add (onGrid_quantize 10 raw)
  have hendStorable := storable_of_mem_uIcc hb hr hendGrid hend
  have hend0 : 0 ≤ begin + quantize 10 raw := by
    rcases Set.mem_uIcc.mp hend with ⟨h1, -⟩ | ⟨h1, -⟩
    · exact hb0.trans h1
    · exact hr0.trans h1
  -- the adjustment is computed exactly
  set interest := quantize 10 (workingRound (period.cashCouponLocal + raw)) with hint
  set coupon := quantize 10 period.cashCouponLocal with hcoup
  have hdiff : workingRound (interest - coupon) = interest - coupon := by
    refine workingRound_of_onGrid ((onGrid_quantize 10 _).sub (onGrid_quantize 10 _)) ?_
    have h1 := storable_bound hinterest
    have h2 := storable_bound hcash
    refine (abs_sub _ _).trans_lt ((add_lt_add h1 h2).trans (by norm_num))
  have hadjust := abs_adjustment_le hincome
  have hadjGrid : OnGrid 10 (quantize 10 raw - (interest - coupon)) :=
    (onGrid_quantize 10 _).sub ((onGrid_quantize 10 _).sub (onGrid_quantize 10 _))
  have hadj : workingRound (quantize 10 raw - (interest - coupon)) =
      quantize 10 raw - (interest - coupon) :=
    workingRound_of_onGrid hadjGrid (hadjust.trans_lt (by norm_num))
  refine ⟨⟨period.periodStartDate, period.periodEndDate, period.yearFraction, none, begin, interest,
    coupon, quantize 10 raw, begin + quantize 10 raw, quantize 10 raw - (interest - coupon)⟩, ?_,
    rfl, rfl, ⟨rfl, rfl, hend⟩, hendStorable, fun hfinal => ?_⟩
  · unfold calculatePeriod
    rw [hmove]
    refine except_bind_eq_ok.mpr ⟨_, rfl, ?_⟩
    refine except_bind_eq_ok.mpr ⟨_, normalize_eq_ok.mpr ⟨rfl, hmovement⟩, ?_⟩
    refine except_bind_eq_ok.mpr ⟨_, normalize_eq_ok.mpr ⟨rfl, hinterest⟩, ?_⟩
    refine except_bind_eq_ok.mpr ⟨_, normalize_eq_ok.mpr ⟨rfl, hcash⟩, ?_⟩
    refine except_bind_eq_ok.mpr
      ⟨_, (add_eq_ok hb hmovement).mpr ⟨rfl, hendStorable⟩, ?_⟩
    rw [if_neg (not_lt.mpr hend0)]
    refine except_bind_eq_ok.mpr ⟨_, normalize_eq_ok.mpr ⟨?_, ?_⟩, rfl⟩
    · rw [hdiff, hadj, quantize_of_onGrid hadjGrid]
    · exact storable_iff.mpr ⟨hadjGrid, hadjust.trans_lt (by norm_num)⟩
  · show begin + quantize 10 raw = redemption
    rw [hall hfinal]
    ring

end Period

/-! ## The loop -/

/-- Every row begins where the one before it ended and moves towards the redemption value, which the
last one reaches. -/
def Amortizes (redemption : ℚ) : ℚ → List AmortizationPeriodResult → Prop
  | begin, [] => begin = redemption
  | begin, row :: rows =>
    row.Moves begin redemption ∧ Amortizes redemption row.endAmortizedCostLocal rows

namespace Amortizes

variable {redemption begin : ℚ} {rows : List AmortizationPeriodResult}

section Amortized

variable (h : Amortizes redemption begin rows)

include h

theorem sum_eq : (rows.map (·.amortizationAmountLocal)).sum = redemption - begin := by
  induction rows generalizing begin with
  | nil =>
    obtain rfl : begin = redemption := h
    simp
  | cons row rows ih =>
    rw [List.map_cons, List.sum_cons, ih h.2, h.1.end_eq]
    ring

theorem finalCost_eq : finalCost begin rows = redemption := by
  induction rows generalizing begin with
  | nil => exact h
  | cons row rows ih =>
    rw [← ih h.2]
    cases rows with
    | nil => rfl
    | cons next rows =>
      unfold finalCost
      rw [List.getLast?_cons_cons]
      cases hlast : (next :: rows).getLast? with
      | none => simp at hlast
      | some last => rfl

theorem isChain : rows.IsChain fun a b => b.beginAmortizedCostLocal = a.endAmortizedCostLocal := by
  induction rows generalizing begin with
  | nil => exact .nil
  | cons row rows ih =>
    cases rows with
    | nil => exact .singleton _
    | cons next rows => exact .cons_cons h.2.1.begin_eq (ih h.2)

theorem mem_uIcc :
    ∀ row ∈ rows, row.endAmortizedCostLocal ∈ Set.uIcc begin redemption ∧
      row.endAmortizedCostLocal ∈ Set.uIcc row.beginAmortizedCostLocal redemption := by
  induction rows generalizing begin with
  | nil => simp
  | cons row rows ih =>
    intro other hother
    rcases List.mem_cons.mp hother with rfl | hother
    · exact ⟨h.1.towards, h.1.begin_eq ▸ h.1.towards⟩
    · obtain ⟨h1, h2⟩ := ih h.2 other hother
      exact ⟨Set.uIcc_subset_uIcc_right h.1.towards h1, h2⟩

end Amortized

end Amortizes

section Loop

variable {power : ℚ → ℚ → Option ℚ} {policy : AmortizedCostPolicy} {annualYield : Option ℚ}
  {periods : List AmortizationPeriodInput} {k : ℤ}

/-- The year fractions are whole multiples of one place that products keep, and their total is a
number of 64 digits of that place. -/
structure OnScale (k : ℤ) (periods : List AmortizationPeriodInput) : Prop where
  place_le : fractionPlace ≤ k
  multiple : ∀ period ∈ periods, ∃ n : ℤ, period.yearFraction = n * 10 ^ k
  sum_lt : (periods.map (·.yearFraction)).sum < 10 ^ (k + 64)
  sum_le : (periods.map (·.yearFraction)).sum ≤ contextMax

/-- Multiples of the place below 64 digits are exact in the context of the ledger. -/
theorem workingValue_of_scale {x : ℚ} (hk : fractionPlace ≤ k) (hx : ∃ n : ℤ, x = n * 10 ^ k)
    (h0 : 0 ≤ x) (hlt : x < 10 ^ (k + 64)) (hle : x ≤ contextMax) : workingValue x = .ok x := by
  have hround : workingRound x = x := by
    obtain ⟨n, rfl⟩ := hx
    refine (ledgerPolicy "" "").arithmeticContext.round_int_mul ?_ ?_
    · show |n| < 10 ^ 64
      have hpos := ten_zpow_pos k
      rw [zpow_add₀ (by norm_num), mul_comm ((10 : ℚ) ^ k)] at hlt
      have hn : (n : ℚ) < 10 ^ (64 : ℤ) := lt_of_mul_lt_mul_right hlt hpos.le
      have hn0 : (0 : ℚ) ≤ n := le_of_mul_le_mul_right (by simpa using h0) hpos
      have hn' : n < 10 ^ 64 := by exact_mod_cast hn
      have hn0' : 0 ≤ n := by exact_mod_cast hn0
      rw [abs_of_nonneg hn0']
      exact hn'
    · unfold fractionPlace at hk
      omega
  rw [workingValue_of_abs_le (by rwa [abs_of_nonneg h0]), hround]

namespace OnScale

theorem sum_nonneg (periods : List AmortizationPeriodInput) :
    0 ≤ (periods.map (·.yearFraction)).sum := by
  refine List.sum_nonneg fun x hx => ?_
  obtain ⟨p, -, rfl⟩ := List.mem_map.mp hx
  exact p.fraction_pos.le

theorem of_cons {period : AmortizationPeriodInput} (h : OnScale k (period :: periods)) :
    OnScale k periods := by
  have hpos := period.fraction_pos
  have hlt := h.sum_lt
  have hle := h.sum_le
  rw [List.map_cons, List.sum_cons] at hlt hle
  exact ⟨h.place_le, fun p hp => h.multiple p (by simp [hp]), by linarith, by linarith⟩

theorem exists_sum (h : OnScale k periods) :
    ∃ n : ℤ, (periods.map (·.yearFraction)).sum = n * 10 ^ k := by
  induction periods with
  | nil => exact ⟨0, by simp⟩
  | cons period periods ih =>
    obtain ⟨n, hn⟩ := ih h.of_cons
    obtain ⟨m, hm⟩ := h.multiple period (by simp)
    exact ⟨m + n, by rw [List.map_cons, List.sum_cons, hn, hm]; push_cast; ring⟩

theorem workingValue_sum (h : OnScale k periods) :
    workingValue (periods.map (·.yearFraction)).sum = .ok (periods.map (·.yearFraction)).sum :=
  workingValue_of_scale h.place_le h.exists_sum (sum_nonneg periods) h.sum_lt h.sum_le

theorem totalWeight_eq (h : OnScale k periods) :
    totalWeight periods = .ok (periods.map (·.yearFraction)).sum := by
  -- the running total is a multiple of the place and stays below the sum
  have hloop : ∀ (l : List AmortizationPeriodInput) (total : ℚ), OnScale k l → 0 ≤ total →
      (∃ n : ℤ, total = n * 10 ^ k) → total + (l.map (·.yearFraction)).sum < 10 ^ (k + 64) →
      total + (l.map (·.yearFraction)).sum ≤ contextMax →
      l.foldlM (fun total period => workingValue (total + period.yearFraction)) total =
        .ok (total + (l.map (·.yearFraction)).sum) := by
    intro l
    induction l with
    | nil =>
      intro total _ _ _ _ _
      rw [List.map_nil, List.sum_nil, add_zero]
      rfl
    | cons period l ih =>
      intro total hl h0 htotal hlt hle
      rw [List.map_cons, List.sum_cons, ← add_assoc] at hlt hle ⊢
      have hrest := sum_nonneg l
      have hpos := period.fraction_pos
      have hstep : ∃ n : ℤ, total + period.yearFraction = n * 10 ^ k := by
        obtain ⟨n, hn⟩ := htotal
        obtain ⟨m, hm⟩ := hl.multiple period (by simp)
        exact ⟨n + m, by rw [hn, hm]; push_cast; ring⟩
      have hvalue : workingValue (total + period.yearFraction) =
          .ok (total + period.yearFraction) :=
        workingValue_of_scale hl.place_le hstep (by linarith) (by linarith) (by linarith)
      rw [List.foldlM_cons]
      exact except_bind_eq_ok.mpr ⟨_, hvalue, ih _ hl.of_cons (by linarith) hstep hlt hle⟩
  have hall := hloop periods 0 h le_rfl ⟨0, by simp⟩ (by rw [zero_add]; exact h.sum_lt)
    (by rw [zero_add]; exact h.sum_le)
  rwa [zero_add] at hall

/-- The first of several periods has a share of every distance whose product does not overflow. -/
theorem shareOf {period : AmortizationPeriodInput} (h : OnScale k (period :: periods)) {d : ℚ}
    (hproduct : |d| * period.yearFraction ≤ contextMax) :
    ShareOf d period.yearFraction ((period :: periods).map (·.yearFraction)).sum where
  pos := period.fraction_pos
  le := by
    have := sum_nonneg periods
    rw [List.map_cons, List.sum_cons]
    linarith
  exists_place := ⟨k, h.place_le, h.multiple period (by simp), h.exists_sum⟩
  product_le := hproduct

end OnScale

variable (power annualYield) in
/-- **The loop.** Straight-line periods amortize the begin to the redemption value. -/
theorem calculatePeriods_straightLine (hm : policy.method = .straightLine)
    (hperiods : periods ≠ []) (hscale : OnScale k periods) {begin redemption : ℚ}
    (hb : Storable begin) (hb0 : 0 ≤ begin) (hr : Storable redemption) (hr0 : 0 ≤ redemption)
    (hcoupon : ∀ period ∈ periods,
      period.cashCouponLocal + max 0 (redemption - begin) ≤ ledgerMax)
    (hproduct : ∀ period ∈ periods.dropLast,
      |redemption - begin| * period.yearFraction ≤ contextMax) :
    ∃ rows, calculatePeriods power policy redemption annualYield periods begin
        (periods.map (·.yearFraction)).sum = .ok rows ∧
      List.Forall₂ (fun period row => row.periodStartDate = period.periodStartDate ∧
        row.periodEndDate = period.periodEndDate) periods rows ∧
      Amortizes redemption begin rows := by
  induction periods generalizing begin with
  | nil => exact absurd rfl hperiods
  | cons period rest ih =>
    have hcover : rest.isEmpty = false → ShareOf (redemption - begin) period.yearFraction
        ((period :: rest).map (·.yearFraction)).sum := by
      intro hrest
      refine hscale.shareOf (hproduct period ?_)
      rw [List.dropLast_cons_of_ne_nil (by simpa using hrest)]
      exact .head _
    obtain ⟨row, hrow, hstart, hend, hmoves, hst, hfinal⟩ := calculatePeriod_straightLine
      power annualYield hm hb hb0 hr hr0 (hcoupon period (by simp)) hcover
    have hweight : workingValue
        (((period :: rest).map (·.yearFraction)).sum - period.yearFraction) =
        .ok (rest.map (·.yearFraction)).sum := by
      rw [List.map_cons, List.sum_cons, add_sub_cancel_left]
      exact hscale.of_cons.workingValue_sum
    unfold calculatePeriods
    cases rest with
    | nil =>
      refine ⟨[row], ?_, .cons ⟨hstart, hend⟩ .nil, hmoves, hfinal rfl⟩
      refine except_bind_eq_ok.mpr ⟨row, hrow, except_bind_eq_ok.mpr ⟨_, hweight, ?_⟩⟩
      exact except_bind_eq_ok.mpr ⟨[], rfl, rfl⟩
    | cons next rest =>
      -- what is left to amortize only shrinks
      have hless : max 0 (redemption - row.endAmortizedCostLocal) ≤ max 0 (redemption - begin) ∧
          |redemption - row.endAmortizedCostLocal| ≤ |redemption - begin| := by
        rcases Set.mem_uIcc.mp hmoves.towards with ⟨h1, h2⟩ | ⟨h1, h2⟩
        · refine ⟨max_le_max le_rfl (by linarith), ?_⟩
          rw [abs_of_nonneg (by linarith), abs_of_nonneg (by linarith)]
          linarith
        · rw [max_eq_left (by linarith : redemption - row.endAmortizedCostLocal ≤ 0),
            abs_of_nonpos (by linarith), abs_of_nonpos (by linarith)]
          exact ⟨le_max_left _ _, by linarith⟩
      have hend0 : 0 ≤ row.endAmortizedCostLocal := by
        rcases Set.mem_uIcc.mp hmoves.towards with ⟨h1, -⟩ | ⟨h1, -⟩
        · exact hb0.trans h1
        · exact hr0.trans h1
      have hproduct' : ∀ p ∈ (next :: rest).dropLast,
          |redemption - row.endAmortizedCostLocal| * p.yearFraction ≤ contextMax := fun p hp =>
        (mul_le_mul_of_nonneg_right hless.2 p.fraction_pos.le).trans
          (hproduct p (by rw [List.dropLast_cons_of_ne_nil (by simp)]; exact .tail _ hp))
      obtain ⟨rows, hrows, hdates, hamortizes⟩ := ih (by simp) hscale.of_cons hst hend0
        (fun p hp => (add_le_add le_rfl hless.1).trans (hcoupon p (by simp [hp]))) hproduct'
      refine ⟨row :: rows, ?_, .cons ⟨hstart, hend⟩ hdates, hmoves, hamortizes⟩
      refine except_bind_eq_ok.mpr ⟨row, hrow, except_bind_eq_ok.mpr ⟨_, hweight, ?_⟩⟩
      exact except_bind_eq_ok.mpr ⟨rows, hrows, rfl⟩

end Loop

/-! ## The schedule -/

namespace AmortizedCostScheduleInput

def openingCost (inputs : AmortizedCostScheduleInput) (policy : AmortizedCostPolicy) : ℚ :=
  quantize 10 (workingRound (inputs.initialCleanCostLocal +
    if policy.includeFeesInAmortizedCost then inputs.feesInBasisLocal else 0))

def redemptionCost (inputs : AmortizedCostScheduleInput) : ℚ :=
  quantize 10 inputs.redemptionValueLocal

/-- A straight-line input whose amounts the ledger holds, coupons with the discount included, whose
year fractions the context adds exactly, and whose products with the distance do not overflow. -/
structure FitsLedger (inputs : AmortizedCostScheduleInput) (policy : AmortizedCostPolicy) :
    Prop where
  noYield : inputs.annualYield = none
  noRates : ∀ period ∈ inputs.periods, period.suppliedPeriodRate = none
  opening : Storable (inputs.openingCost policy)
  redemption : Storable inputs.redemptionCost
  income : ∀ period ∈ inputs.periods, period.cashCouponLocal +
    max 0 (inputs.redemptionCost - inputs.openingCost policy) ≤ ledgerMax
  fractions : ∃ k, OnScale k inputs.periods
  products : ∀ period ∈ inputs.periods.dropLast,
    |inputs.redemptionCost - inputs.openingCost policy| * period.yearFraction ≤ contextMax

end AmortizedCostScheduleInput

/-- **Straight-line schedules.** The schedule completes; each period begins where the last one ended
and moves towards the redemption value without passing it; the last one ends there, and the
amortization amounts add up to the distance. -/
theorem straightLine_schedule_exact (power : ℚ → ℚ → Option ℚ) {policy : AmortizedCostPolicy}
    (hm : policy.method = .straightLine) {inputs : AmortizedCostScheduleInput}
    (h : inputs.FitsLedger policy) :
    ∃ result, calculateAmortizedCostSchedule power policy inputs = .ok result ∧
      result.initialAmortizedCostLocal = inputs.openingCost policy ∧
      result.redemptionValueLocal = inputs.redemptionCost ∧
      List.Forall₂ (fun period row => row.periodStartDate = period.periodStartDate ∧
        row.periodEndDate = period.periodEndDate) inputs.periods result.periods ∧
      (∀ row ∈ result.periods.head?,
        row.beginAmortizedCostLocal = result.initialAmortizedCostLocal) ∧
      (result.periods.IsChain fun a b => b.beginAmortizedCostLocal = a.endAmortizedCostLocal) ∧
      (∀ row ∈ result.periods,
        row.endAmortizedCostLocal ∈
          Set.uIcc result.initialAmortizedCostLocal result.redemptionValueLocal ∧
        row.endAmortizedCostLocal ∈
          Set.uIcc row.beginAmortizedCostLocal result.redemptionValueLocal) ∧
      result.finalAmortizedCostLocal = result.redemptionValueLocal ∧ result.residualLocal = 0 ∧
      (result.periods.map (·.amortizationAmountLocal)).sum =
        result.redemptionValueLocal - result.initialAmortizedCostLocal := by
  obtain ⟨k, hscale⟩ := h.fractions
  have hopening0 : 0 ≤ inputs.openingCost policy := by
    refine quantize_nonneg (workingRound_nonneg (add_nonneg inputs.clean_nonneg ?_))
    split_ifs
    · exact inputs.fees_nonneg
    · exact le_rfl
  have hredemption0 : 0 ≤ inputs.redemptionCost := quantize_nonneg inputs.redemption_nonneg
  obtain ⟨rows, hrows, hdates, hamortizes⟩ := calculatePeriods_straightLine power
    inputs.annualYield hm inputs.periods_ne hscale h.opening hopening0
    h.redemption hredemption0 h.income h.products
  have hrates : inputs.periods.any (·.suppliedPeriodRate.isSome) = false := by
    rw [List.any_eq_false]
    intro period hp
    simp [h.noRates period hp]
  have hvalid : validateRateAuthority policy inputs = .ok () := by
    simp [validateRateAuthority, hm, h.noYield, hrates]
  have hzero : costBasisStateLedger.subtract inputs.redemptionCost inputs.redemptionCost
      "residual_local" = .ok 0 := by
    rw [subtract_of_nonneg h.redemption h.redemption hredemption0 hredemption0, sub_self]
  refine ⟨⟨classifyAmortizedCostDirection (inputs.openingCost policy) inputs.redemptionCost,
    inputs.openingCost policy, inputs.redemptionCost, inputs.redemptionCost, 0, rows⟩, ?_, rfl, rfl,
    hdates, ?_, hamortizes.isChain, hamortizes.mem_uIcc, rfl, rfl, hamortizes.sum_eq⟩
  · unfold calculateAmortizedCostSchedule
    refine except_bind_eq_ok.mpr ⟨(), hvalid, ?_⟩
    refine except_bind_eq_ok.mpr ⟨_, normalize_eq_ok.mpr ⟨rfl, h.opening⟩, ?_⟩
    refine except_bind_eq_ok.mpr ⟨_, normalize_eq_ok.mpr ⟨rfl, h.redemption⟩, ?_⟩
    refine except_bind_eq_ok.mpr ⟨_, hscale.totalWeight_eq, ?_⟩
    refine except_bind_eq_ok.mpr ⟨rows, hrows, ?_⟩
    have hfinal : finalCost (inputs.openingCost policy) rows = inputs.redemptionCost :=
      hamortizes.finalCost_eq
    have htolerance : ¬ policy.residualToleranceLocal < |(0 : ℚ)| := by
      rw [abs_zero]
      exact not_lt.mpr policy.tolerance_nonneg
    refine except_bind_eq_ok.mpr ⟨0, (congrArg (fun x => costBasisStateLedger.subtract _ x _)
      hfinal).trans hzero, ?_⟩
    rw [if_neg htolerance]
    exact congrArg (fun x => Except.ok (AmortizedCostScheduleResult.mk _ _ _ x _ _)) hfinal
  · cases rows with
    | nil => simp
    | cons row rows => simpa using hamortizes.1.begin_eq

def straightLinePolicy : AmortizedCostPolicy where
  method := .straightLine
  yieldApplicationConvention := none
  includeFeesInAmortizedCost := false
  residualToleranceLocal := 0
  convention_iff := by decide
  tolerance_nonneg := le_rfl

def samplePeriod (n : ℤ) (yearFraction coupon : ℚ) (hf : 0 < yearFraction) (hc : 0 ≤ coupon) :
    AmortizationPeriodInput where
  periodStartDate := n
  periodEndDate := n + 1
  yearFraction := yearFraction
  cashCouponLocal := coupon
  dates_lt := by omega
  fraction_pos := hf
  coupon_nonneg := hc
  rate_gt := by simp

/-- A cost, a redemption value and three year fractions, the first with a coupon. -/
def sampleSchedule (cost redemption first others coupon : ℚ) (hcost : 0 ≤ cost)
    (hr : 0 ≤ redemption) (hf : 0 < first) (ho : 0 < others) (hc : 0 ≤ coupon) :
    AmortizedCostScheduleInput where
  initialCleanCostLocal := cost
  feesInBasisLocal := 0
  redemptionValueLocal := redemption
  periods := [samplePeriod 0 first coupon hf hc, samplePeriod 1 others 0 ho le_rfl,
    samplePeriod 2 others 0 ho le_rfl]
  clean_nonneg := hcost
  fees_nonneg := le_rfl
  redemption_nonneg := hr
  periods_ne := by simp
  contiguous := .cons_cons rfl (.cons_cons rfl (.singleton _))
  yield_gt := by simp

theorem straightLine_schedule_exact_thirds :
    ∃ result, calculateAmortizedCostSchedule (fun _ _ => none) straightLinePolicy
        (sampleSchedule 1 2 1 1 0 one_pos.le two_pos.le one_pos one_pos le_rfl) = .ok result ∧
      result.periods.map (·.endAmortizedCostLocal) =
        [13333333333 / 10 ^ 10, 16666666667 / 10 ^ 10, 2] ∧
      (result.periods.map (·.amortizationAmountLocal)).sum = 1 := by
  set inputs := sampleSchedule 1 2 1 1 0 one_pos.le two_pos.le one_pos one_pos le_rfl with hinputs
  have hfits : inputs.FitsLedger straightLinePolicy := by
    have hone : inputs.redemptionCost - inputs.openingCost straightLinePolicy = 1 := by
      decide +kernel
    refine ⟨rfl, ?_, by decide +kernel, by decide +kernel, by decide +kernel,
      ⟨0, by decide, ?_, ?_, le_contextMax ?_⟩, ?_⟩
    · simp [hinputs, sampleSchedule, samplePeriod]
    · intro period hperiod
      simp only [hinputs, sampleSchedule, List.mem_cons, List.not_mem_nil, or_false] at hperiod
      exact ⟨1, by rcases hperiod with rfl | rfl | rfl <;> norm_num [samplePeriod]⟩
    · norm_num [hinputs, sampleSchedule, samplePeriod]
    · norm_num [hinputs, sampleSchedule, samplePeriod]
    · rw [hone]
      intro period hperiod
      refine le_contextMax ?_
      simp only [hinputs, sampleSchedule, List.dropLast, List.mem_cons, List.not_mem_nil,
        or_false] at hperiod
      rcases hperiod with rfl | rfl <;> norm_num [samplePeriod]
  obtain ⟨result, hresult, hopening, hredemption, -, -, -, -, -, -, hsum⟩ :=
    straightLine_schedule_exact (fun _ _ => none) (rfl : straightLinePolicy.method = _) hfits
  have hends : (calculateAmortizedCostSchedule (fun _ _ => none) straightLinePolicy inputs).map
        (fun result => result.periods.map (·.endAmortizedCostLocal)) =
      .ok [13333333333 / 10 ^ 10, 16666666667 / 10 ^ 10, 2] := by decide +kernel
  rw [hresult] at hends
  have hone : inputs.redemptionCost - inputs.openingCost straightLinePolicy = 1 := by decide +kernel
  exact ⟨result, hresult, Except.ok.inj hends, by rw [hsum, hopening, hredemption, hone]⟩

/-- An opening cost beyond the ledger, a coupon whose interest is beyond it, a year fraction that
drowns the others in the total weight and year fractions whose products overflow are refused. Year
fractions whose products underflow move the cost past the redemption value. -/
theorem straightLine_schedule_refused :
    calculateAmortizedCostSchedule (fun _ _ => none) straightLinePolicy
        (sampleSchedule (10 ^ 8) 1 1 1 0 (by norm_num) one_pos.le one_pos one_pos le_rfl) =
      .error (costBasisStateLedger.overflow "initial_amortized_cost_local") ∧
    calculateAmortizedCostSchedule (fun _ _ => none) straightLinePolicy
        (sampleSchedule 1 4 1 1 (10 ^ 8 - 1) one_pos.le (by norm_num) one_pos one_pos
          (by norm_num)) =
      .error (costBasisStateLedger.overflow "interest_income_local") ∧
    calculateAmortizedCostSchedule (fun _ _ => none) straightLinePolicy
        (sampleSchedule 1 2 (10 ^ 65) 1 0 one_pos.le two_pos.le (by norm_num) one_pos le_rfl) =
      .error .decimalDivision ∧
    calculateAmortizedCostSchedule (fun _ _ => none) straightLinePolicy
        (sampleSchedule 1 101 (10 ^ 999998 : ℕ) (10 ^ 999998 : ℕ) 0 one_pos.le (by norm_num)
          (by positivity) (by positivity) le_rfl) =
      .error .decimalOverflow ∧
    (calculateAmortizedCostSchedule (fun _ _ => none) straightLinePolicy
        (sampleSchedule 1 (1 + 1 / 10 ^ 10) (60 / (10 ^ 1000054 : ℕ)) (1 / (10 ^ 1000054 : ℕ)) 0
          one_pos.le (by norm_num) (by positivity) (by positivity) le_rfl)).map
        (fun result => result.periods.map (·.endAmortizedCostLocal)) =
      .ok [1 + 2 / 10 ^ 10, 1 + 2 / 10 ^ 10, 1 + 1 / 10 ^ 10] := by
  refine ⟨?_, ?_, ?_, ?_, ?_⟩ <;> decide +kernel

end LotusCore
