import LotusCore.CostBasis.AverageCost

/-!
# Amortized cost schedules

How the book cost of a fixed-income lot moves from its opening amount to its redemption value, one
contractual period after the other, under a straight-line or an effective-yield policy. All of it is
computed in the 64 digit context of the ledger, where a year fraction can overflow, and every amount
is rounded to ten decimals.

* `AmortizedCostPolicy`, `AmortizedCostScheduleInput`: the accounting policy and the authoritative
  inputs, with the facts their constructors check.
* `calculatePeriod`: one period.
* `calculateAmortizedCostSchedule`: the schedule, fenced by the residual tolerance.
* **`schedule_reconciles`**: every schedule accounts for its movements, under any policy.
-/

namespace LotusCore

open Exec Decimal Ledger

/-! ## Policies and inputs -/

inductive AmortizedCostMethod
  | effectiveYield
  | straightLine
  deriving Repr, DecidableEq

inductive YieldApplicationConvention
  | annualEffective
  | annualNominalSimple
  | perPeriodEffective
  deriving Repr, DecidableEq

inductive AmortizedCostDirection
  | premiumAmortization
  | discountAccretion
  | atPar
  deriving Repr, DecidableEq

/-- One accounting policy. A yield convention belongs to the effective-yield method only. -/
structure AmortizedCostPolicy where
  method : AmortizedCostMethod
  yieldApplicationConvention : Option YieldApplicationConvention
  includeFeesInAmortizedCost : Bool
  residualToleranceLocal : ℚ
  convention_iff : yieldApplicationConvention.isSome ↔ method = .effectiveYield
  tolerance_nonneg : 0 ≤ residualToleranceLocal

structure AmortizationPeriodInput where
  periodStartDate : ℤ
  periodEndDate : ℤ
  yearFraction : ℚ
  cashCouponLocal : ℚ
  suppliedPeriodRate : Option ℚ := none
  dates_lt : periodStartDate < periodEndDate
  fraction_pos : 0 < yearFraction
  coupon_nonneg : 0 ≤ cashCouponLocal
  rate_gt : ∀ rate ∈ suppliedPeriodRate, -1 < rate

/-- The authoritative inputs of one schedule: contiguous periods in order. -/
structure AmortizedCostScheduleInput where
  initialCleanCostLocal : ℚ
  feesInBasisLocal : ℚ
  redemptionValueLocal : ℚ
  periods : List AmortizationPeriodInput
  annualYield : Option ℚ := none
  clean_nonneg : 0 ≤ initialCleanCostLocal
  fees_nonneg : 0 ≤ feesInBasisLocal
  redemption_nonneg : 0 ≤ redemptionValueLocal
  periods_ne : periods ≠ []
  contiguous : periods.IsChain fun a b => a.periodEndDate = b.periodStartDate
  yield_gt : ∀ rate ∈ annualYield, -1 < rate

/-! ## Results -/

structure AmortizationPeriodResult where
  periodStartDate : ℤ
  periodEndDate : ℤ
  yearFraction : ℚ
  periodRate : Option ℚ
  beginAmortizedCostLocal : ℚ
  interestIncomeLocal : ℚ
  cashCouponLocal : ℚ
  amortizationAmountLocal : ℚ
  endAmortizedCostLocal : ℚ
  roundingAdjustmentLocal : ℚ
  deriving DecidableEq

structure AmortizedCostScheduleResult where
  direction : AmortizedCostDirection
  initialAmortizedCostLocal : ℚ
  redemptionValueLocal : ℚ
  finalAmortizedCostLocal : ℚ
  residualLocal : ℚ
  periods : List AmortizationPeriodResult
  deriving DecidableEq

/-! ## Calculation -/

/-- `classify_amortized_cost_direction`; the amounts it is given are nonnegative. -/
def classifyAmortizedCostDirection (opening redemption : ℚ) : AmortizedCostDirection :=
  if redemption < opening then .premiumAmortization
  else if opening < redemption then .discountAccretion
  else .atPar

def validateRateAuthority (policy : AmortizedCostPolicy) (inputs : AmortizedCostScheduleInput) :
    Except Raised Unit :=
  match policy.method with
  | .straightLine =>
    if inputs.annualYield.isSome ∨ inputs.periods.any (·.suppliedPeriodRate.isSome) then
      .error (.valueError "straight-line schedules must not declare yield inputs")
    else .ok ()
  | .effectiveYield =>
    if policy.yieldApplicationConvention = some .perPeriodEffective then
      if inputs.annualYield.isSome then
        .error (.valueError "per-period-effective schedules must not declare annual_yield")
      else if inputs.periods.any (·.suppliedPeriodRate.isNone) then
        .error (.valueError "each per-period-effective period requires supplied_period_rate")
      else .ok ()
    else if inputs.annualYield.isNone then
      .error (.valueError "annual-yield schedules require annual_yield")
    else if inputs.periods.any (·.suppliedPeriodRate.isSome) then
      .error (.valueError "annual-yield schedules must not declare supplied_period_rate")
    else .ok ()

section Calculation

/-- The result of an operation in the 64 digit context of the ledger, which raises if it
overflows. -/
def workingValue (x : ℚ) : Except Raised ℚ :=
  if (ledgerPolicy "" "").arithmeticContext.Overflows x then .error .decimalOverflow
  else .ok (workingRound x)

/-- A division in that context. -/
def workingQuotient (x y : ℚ) : Except Raised ℚ :=
  if y = 0 then .error .decimalDivision else workingValue (x / y)

-- the power of two decimals in the 64 digit context, where the context computes it
variable (power : ℚ → ℚ → Option ℚ)

/-- `_resolve_period_rate`; whatever the power raises is one refusal. -/
def resolvePeriodRate (policy : AmortizedCostPolicy) (period : AmortizationPeriodInput)
    (annualYield : Option ℚ) : Except Raised ℚ :=
  match policy.yieldApplicationConvention, annualYield with
  | some .perPeriodEffective, _ =>
    match period.suppliedPeriodRate with
    | some rate => .ok rate
    | none =>
      .error (.valueError "per-period-effective period requires supplied_period_rate")
  | _, none => .error (.valueError "annual-yield period requires annual_yield")
  | some .annualNominalSimple, some annual => workingValue (annual * period.yearFraction)
  | some .annualEffective, some annual =>
    if annual ≤ -1 then
      .error (.valueError "annual effective yield must be greater than negative one")
    else
      let rate := do
        let base ← (workingValue (1 + annual)).toOption
        let growth ← power base period.yearFraction
        (workingValue (growth - 1)).toOption
      match rate with
      | some rate => .ok rate
      | none => .error (.valueError
          "annual effective yield cannot be applied to the governed year fraction")
  | none, some _ => .error (.valueError "unsupported yield application convention")

/-- The rate of a period, its interest and the movement of the book cost before rounding. -/
structure PeriodMovement where
  periodRate : Option ℚ
  interest : ℚ
  rawMovement : ℚ

/-- A straight-line period takes its share of the remaining distance, the last one all of it. -/
def straightLineMovement (distance yearFraction remainingWeight : ℚ) (isFinal : Bool) :
    Except Raised ℚ :=
  if isFinal then .ok distance
  else do
    let product ← workingValue (distance * yearFraction)
    workingQuotient product remainingWeight

/-- The first part of `_calculate_period`, up to the movement before rounding. -/
def periodMovement (policy : AmortizedCostPolicy) (period : AmortizationPeriodInput)
    (begin redemption : ℚ) (annualYield : Option ℚ) (remainingWeight : ℚ) (isFinal : Bool) :
    Except Raised PeriodMovement :=
  match policy.method with
  | .straightLine => do
    let distance ← workingValue (redemption - begin)
    let rawMovement ← straightLineMovement distance period.yearFraction remainingWeight isFinal
    let interest ← workingValue (period.cashCouponLocal + rawMovement)
    .ok ⟨none, interest, rawMovement⟩
  | .effectiveYield => do
    let rate ← resolvePeriodRate power policy period annualYield
    let interest ← workingValue (begin * rate)
    let rawMovement ← workingValue (interest - period.cashCouponLocal)
    .ok ⟨some rate, interest, rawMovement⟩

def calculatePeriod (policy : AmortizedCostPolicy) (period : AmortizationPeriodInput)
    (begin redemption : ℚ) (annualYield : Option ℚ) (remainingWeight : ℚ) (isFinal : Bool) :
    Except Raised AmortizationPeriodResult := do
  let m ← periodMovement power policy period begin redemption annualYield remainingWeight isFinal
  let movement ← costBasisStateLedger.normalize m.rawMovement "amortization_amount_local"
  let interest ← costBasisStateLedger.normalize m.interest "interest_income_local"
  let coupon ← costBasisStateLedger.normalize period.cashCouponLocal "cash_coupon_local"
  let endCost ← costBasisStateLedger.add begin movement "end_amortized_cost_local"
  if endCost < 0 then
    .error (.valueError "end amortized cost must be nonnegative")
  else do
    let adjustment ← costBasisStateLedger.normalize
      (workingRound (movement - workingRound (interest - coupon))) "rounding_adjustment_local"
    .ok ⟨period.periodStartDate, period.periodEndDate, period.yearFraction, m.periodRate, begin,
      interest, coupon, movement, endCost, adjustment⟩

/-- The loop of `calculate_amortized_cost_schedule`. -/
def calculatePeriods (policy : AmortizedCostPolicy) (redemption : ℚ) (annualYield : Option ℚ) :
    List AmortizationPeriodInput → ℚ → ℚ → Except Raised (List AmortizationPeriodResult)
  | [], _, _ => .ok []
  | period :: rest, begin, remainingWeight => do
    let row ← calculatePeriod power policy period begin redemption annualYield remainingWeight
      rest.isEmpty
    let remainingWeight ← workingValue (remainingWeight - period.yearFraction)
    let rows ← calculatePeriods policy redemption annualYield rest row.endAmortizedCostLocal
      remainingWeight
    .ok (row :: rows)

/-- The year fractions added up in the context of the ledger. -/
def totalWeight (periods : List AmortizationPeriodInput) : Except Raised ℚ :=
  periods.foldlM (fun total period => workingValue (total + period.yearFraction)) 0

def finalCost (initial : ℚ) (rows : List AmortizationPeriodResult) : ℚ :=
  (rows.getLast?.map (·.endAmortizedCostLocal)).getD initial

def calculateAmortizedCostSchedule (policy : AmortizedCostPolicy)
    (inputs : AmortizedCostScheduleInput) : Except Raised AmortizedCostScheduleResult := do
  validateRateAuthority policy inputs
  let feeBasis := if policy.includeFeesInAmortizedCost then inputs.feesInBasisLocal else 0
  let initial ← costBasisStateLedger.add inputs.initialCleanCostLocal feeBasis
    "initial_amortized_cost_local"
  let redemption ← costBasisStateLedger.normalize inputs.redemptionValueLocal
    "redemption_value_local"
  let weight ← totalWeight inputs.periods
  let rows ←
    calculatePeriods power policy redemption inputs.annualYield inputs.periods initial weight
  let final := finalCost initial rows
  let residual ← costBasisStateLedger.subtract redemption final "residual_local"
  if policy.residualToleranceLocal < |residual| then
    .error (.valueError
      "final amortized cost does not reconcile to redemption value within tolerance")
  else .ok ⟨classifyAmortizedCostDirection initial redemption, initial, redemption, final, residual,
    rows⟩

end Calculation

/-! ## Reconciliation -/

section Reconciliation

variable {power : ℚ → ℚ → Option ℚ} {policy : AmortizedCostPolicy} {begin redemption : ℚ}
  {annualYield : Option ℚ} {remainingWeight : ℚ}

/-- The book cost moves by the interest less the coupon, up to the adjustment on record. -/
structure AmortizationPeriodResult.Reconciles (row : AmortizationPeriodResult) : Prop where
  end_eq : row.endAmortizedCostLocal = row.beginAmortizedCostLocal + row.amortizationAmountLocal
  movement_eq : row.amortizationAmountLocal =
    row.interestIncomeLocal - row.cashCouponLocal + row.roundingAdjustmentLocal
  end_nonneg : 0 ≤ row.endAmortizedCostLocal

/-- The rows of the periods lead from one cost to another. -/
inductive ReconcilesTo : ℚ → List AmortizationPeriodInput → List AmortizationPeriodResult → ℚ → Prop
  | nil (cost : ℚ) : ReconcilesTo cost [] [] cost
  | cons {period : AmortizationPeriodInput} {periods : List AmortizationPeriodInput}
      {row : AmortizationPeriodResult} {rows : List AmortizationPeriodResult} {final : ℚ}
      (start_eq : row.periodStartDate = period.periodStartDate)
      (end_eq : row.periodEndDate = period.periodEndDate) (reconciles : row.Reconciles)
      (rest : ReconcilesTo row.endAmortizedCostLocal periods rows final) :
      ReconcilesTo row.beginAmortizedCostLocal (period :: periods) (row :: rows) final

theorem ReconcilesTo.final_eq {periods : List AmortizationPeriodInput}
    {rows : List AmortizationPeriodResult} {final : ℚ} (h : ReconcilesTo begin periods rows final) :
    final = begin + (rows.map (·.interestIncomeLocal)).sum - (rows.map (·.cashCouponLocal)).sum +
      (rows.map (·.roundingAdjustmentLocal)).sum := by
  induction h with
  | nil cost => simp
  | cons _ _ hrow _ ih =>
    simp only [List.map_cons, List.sum_cons]
    rw [ih, hrow.end_eq, hrow.movement_eq]
    ring

theorem calculatePeriod_reconciles {period : AmortizationPeriodInput} {isFinal : Bool}
    {row : AmortizationPeriodResult} (hbegin : Storable begin)
    (h : calculatePeriod power policy period begin redemption annualYield remainingWeight isFinal =
      .ok row) :
    row.Reconciles ∧ row.beginAmortizedCostLocal = begin ∧ Storable row.endAmortizedCostLocal ∧
      row.periodStartDate = period.periodStartDate ∧ row.periodEndDate = period.periodEndDate := by
  unfold calculatePeriod at h
  simp only [except_bind_eq_ok] at h
  obtain ⟨m, -, movement, hmovement, interest, hinterest, coupon, hcoupon, endCost, hend, h⟩ := h
  have hms := (normalize_eq_ok.mp hmovement).2
  have his := (normalize_eq_ok.mp hinterest).2
  have hcs := (normalize_eq_ok.mp hcoupon).2
  obtain ⟨rfl, hes⟩ := (add_eq_ok hbegin hms).mp hend
  split_ifs at h with hneg
  obtain ⟨adjustment, hadjustment, h⟩ := except_bind_eq_ok.mp h
  cases h
  refine ⟨⟨rfl, ?_, not_lt.mp hneg⟩, rfl, hes, rfl, rfl⟩
  -- differences of ledger values are exact in the context of the ledger
  have hbi := storable_bound his
  have hbc := storable_bound hcs
  have hbm := storable_bound hms
  have hinner := abs_sub interest coupon
  have houter := abs_sub movement (interest - coupon)
  have hgrid : OnGrid 10 (interest - coupon) := his.onGrid.sub hcs.onGrid
  have hgrid' : OnGrid 10 (movement - (interest - coupon)) := hms.onGrid.sub hgrid
  have hexact : adjustment = movement - (interest - coupon) := by
    rw [(normalize_eq_ok.mp hadjustment).1,
      workingRound_of_onGrid hgrid (by linarith),
      workingRound_of_onGrid hgrid' (by linarith), quantize_of_onGrid hgrid']
  change movement = interest - coupon + adjustment
  rw [hexact]
  ring

theorem calculatePeriods_reconciles {periods : List AmortizationPeriodInput}
    {rows : List AmortizationPeriodResult} (hbegin : Storable begin)
    (h : calculatePeriods power policy redemption annualYield periods begin remainingWeight =
      .ok rows) :
    ReconcilesTo begin periods rows (finalCost begin rows) ∧ Storable (finalCost begin rows) := by
  induction periods generalizing begin remainingWeight rows with
  | nil =>
    cases h
    exact ⟨.nil begin, hbegin⟩
  | cons period rest ih =>
    obtain ⟨row, hrow, h⟩ := except_bind_eq_ok.mp h
    obtain ⟨weight, -, h⟩ := except_bind_eq_ok.mp h
    obtain ⟨rows, hrows, h⟩ := except_bind_eq_ok.mp h
    cases h
    obtain ⟨hreconciles, rfl, hstored, hstart, hend⟩ := calculatePeriod_reconciles hbegin hrow
    have hfinal : finalCost row.beginAmortizedCostLocal (row :: rows) =
        finalCost row.endAmortizedCostLocal rows := by
      unfold finalCost
      cases hget : rows.getLast? <;> simp [List.getLast?_cons, hget]
    rw [hfinal]
    exact ⟨.cons hstart hend hreconciles (ih hstored hrows).1, (ih hstored hrows).2⟩

/-- **Schedules reconcile.** Whatever the method, the rows of a schedule are those of its periods,
each begins where the last one ended, and interest less coupons plus the recorded adjustments is
exactly what the book cost has moved by, to within the tolerance of the redemption value. -/
theorem schedule_reconciles {inputs : AmortizedCostScheduleInput}
    {result : AmortizedCostScheduleResult}
    (h : calculateAmortizedCostSchedule power policy inputs = .ok result) :
    ReconcilesTo result.initialAmortizedCostLocal inputs.periods result.periods
      result.finalAmortizedCostLocal ∧
    result.finalAmortizedCostLocal = result.initialAmortizedCostLocal +
      (result.periods.map (·.interestIncomeLocal)).sum -
      (result.periods.map (·.cashCouponLocal)).sum +
      (result.periods.map (·.roundingAdjustmentLocal)).sum ∧
    |result.redemptionValueLocal - result.finalAmortizedCostLocal| ≤
      policy.residualToleranceLocal := by
  unfold calculateAmortizedCostSchedule at h
  simp only [except_bind_eq_ok] at h
  obtain ⟨_, -, initial, hinitial, redemption, hredemption, weight, -, rows, hrows, residual,
    hresidual, h⟩ := h
  obtain ⟨hto, hstored⟩ := calculatePeriods_reconciles (storable_of_add hinitial) hrows
  obtain ⟨rfl, -⟩ :=
    (subtract_eq_ok (normalize_eq_ok.mp hredemption).2 hstored).mp hresidual
  split_ifs at h with htolerance
  cases h
  exact ⟨hto, hto.final_eq, not_lt.mp htolerance⟩

/-- Two periods at a yield of a tenth; the first rounds its interest down and its coupon up. -/
theorem schedule_reconciles_yield :
    let policy : AmortizedCostPolicy :=
      ⟨.effectiveYield, some .perPeriodEffective, false, 1, by decide, one_pos.le⟩
    let inputs : AmortizedCostScheduleInput :=
      { initialCleanCostLocal := 100, feesInBasisLocal := 0, redemptionValueLocal := 104
        periods := [⟨0, 1, 1, 8 + 6 / 10 ^ 11, some (1 / 10 + 4 / 10 ^ 13), by decide, one_pos,
            by norm_num, by decide +kernel⟩,
          ⟨1, 2, 1, 8, some (1 / 10), by decide, one_pos, by decide, by decide +kernel⟩]
        clean_nonneg := by decide, fees_nonneg := le_rfl, redemption_nonneg := by decide
        periods_ne := by simp, contiguous := .cons_cons rfl (.singleton _), yield_gt := by simp }
    ∃ result, calculateAmortizedCostSchedule (fun _ _ => none) policy inputs = .ok result ∧
      result.periods.map (·.roundingAdjustmentLocal) = [1 / 10 ^ 10, 0] ∧
      ReconcilesTo 100 inputs.periods result.periods (521 / 5) := by
  intro policy inputs
  have hok : (calculateAmortizedCostSchedule (fun _ _ => none) policy inputs).map
      (fun result => (result.initialAmortizedCostLocal, result.finalAmortizedCostLocal,
        result.periods.map (·.roundingAdjustmentLocal))) =
      .ok (100, 521 / 5, [1 / 10 ^ 10, 0]) := by decide +kernel
  obtain ⟨result, hresult, hvalues⟩ := except_map_eq_ok.mp hok
  simp only [Prod.mk.injEq] at hvalues
  obtain ⟨hinitial, hfinal, hadjustments⟩ := hvalues
  exact ⟨result, hresult, hadjustments, hinitial ▸ hfinal ▸ (schedule_reconciles hresult).1⟩

end Reconciliation

end LotusCore
