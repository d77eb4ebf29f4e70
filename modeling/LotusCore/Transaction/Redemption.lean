import LotusCore.CostBasis.Transaction

/-!
# Fixed-income redemptions

Which redemptions a cost calculation accepts, and the quantity, proceeds and realized result of one.

* `assertRedemptionCommandEligible`: the instrument and value-date policy.
* `resolveRedeemedQuantity`: the redeemed quantity, from the booking or from a factor transition.
* `calculateRedemptionEconomics`: the economics of one redemption.
* `calculateRedemptionEconomics_eq_ok`, `resolveRedeemedQuantity_eq_ok`: a calculation that
  completes, clause by clause.
-/

namespace LotusCore

open Exec Decimal Ledger

/-! ## Eligibility -/

/-- `REDEMPTION_TRANSACTION_TYPES`. -/
def TransactionType.isRedemption : TransactionType → Bool
  | .maturityRedemption | .callRedemption | .partialRedemption => true
  | _ => false

/-- `_FULL_REDEMPTION_TRANSACTION_TYPES`. -/
def TransactionType.isFullRedemption : TransactionType → Bool
  | .maturityRedemption | .callRedemption => true
  | _ => false

/-- `_TERM_REDEEMABLE_PRODUCT_TYPES`. -/
def termRedeemableProductTypes : List String :=
  ["ASSET_BACKED_SECURITY", "BOND", "CERTIFICATE_OF_DEPOSIT", "COMMERCIAL_PAPER",
    "CONVERTIBLE_BOND", "FIXED_INCOME", "MONEY_MARKET_INSTRUMENT", "MORTGAGE_BACKED_SECURITY",
    "NOTE", "STRUCTURED_CALLABLE_NOTE", "STRUCTURED_NOTE", "TREASURY_BILL"]

/-- `REDEMPTION_ELIGIBLE_PRODUCT_TYPES_BY_TRANSACTION`. -/
def redemptionEligibleProductTypes : TransactionType → List String
  | .maturityRedemption => termRedeemableProductTypes
  | _ => termRedeemableProductTypes ++ ["PERPETUAL_BOND"]

def assertRedemptionCommandEligible (t : CostBasisTransaction) : Except Raised Unit :=
  let code := t.transactionType.code
  let productType := normalizeTransactionControlCode t.productType
  let assetClass := normalizeTransactionControlCode t.assetClass
  if !t.transactionType.isRedemption then .ok ()
  else if t.settlementDate.isNone then
    .error (.valueError ("settlement_date is required for " ++ code ++ "."))
  else if productType ∉ redemptionEligibleProductTypes t.transactionType then
    .error (.valueError (code ++
      " requires an explicitly redemption-eligible product_type; received " ++
      (if productType = "" then "MISSING" else productType) ++ "."))
  else if assetClass ≠ "" ∧ assetClass ≠ "FIXED_INCOME" then
    .error (.valueError (code ++
      " requires FIXED_INCOME asset_class when supplied; received " ++ assetClass ++ "."))
  else .ok ()

/-! ## Economics -/

structure RedemptionTerms where
  transactionType : TransactionType
  positionQuantity : ℚ
  redemptionPrice : ℚ
  allocatedCostBasisLocal : ℚ
  allocatedCostBasisBase : ℚ
  fxRateToBase : ℚ
  redeemedQuantity : Option ℚ
  oldFactor : Option ℚ
  newFactor : Option ℚ
  principalProceedsLocal : Option ℚ
  accruedInterestProceedsLocal : ℚ
  embeddedFeeAmountLocal : ℚ
  embeddedTaxAmountLocal : ℚ

def reconciliationTolerance : ℚ := 1 / 10 ^ 10

structure RedemptionEconomics where
  redeemedQuantity : ℚ
  remainingQuantity : ℚ
  derivedPrincipalProceedsLocal : ℚ
  principalProceedsLocal : ℚ
  accruedInterestProceedsLocal : ℚ
  totalCashProceedsLocal : ℚ
  principalProceedsBase : ℚ
  realizedCapitalPnlLocal : ℚ
  realizedCapitalPnlBase : ℚ
  deriving DecidableEq

/-- `_require_positive`. -/
def requirePositiveTerm (value : ℚ) (code : RedemptionCalculationReasonCode) (field : String) :
    Except Raised Unit :=
  if value ≤ 0 then
    .error (.redemptionCalculation code field "value must be a positive finite decimal.")
  else .ok ()

/-- `_require_nonnegative`. -/
def requireNonnegativeTerm (value : ℚ) (code : RedemptionCalculationReasonCode) (field : String) :
    Except Raised Unit :=
  if value < 0 then
    .error (.redemptionCalculation code field "value must be a non-negative finite decimal.")
  else .ok ()

/-- `_require_within_tolerance`; the difference is taken in the ambient context. -/
def requireWithinTolerance (left right : ℚ) (code : RedemptionCalculationReasonCode)
    (field : String) : Except Raised Unit :=
  if reconciliationTolerance < |ambientContext.round (left - right)| then
    .error (.redemptionCalculation code field
      "values differ by more than the governed tolerance 1E-10.")
  else .ok ()

variable (terms : RedemptionTerms)

/-- `_validated_inputs`. -/
def validateRedemptionTerms : Except Raised Unit := do
  if !terms.transactionType.isRedemption then
    .error (.redemptionCalculation .invalidTransactionType "transaction_type"
      "transaction type must belong to the canonical redemption family.")
  requirePositiveTerm terms.positionQuantity .nonPositivePositionQuantity "position_quantity"
  requireNonnegativeTerm terms.redemptionPrice .nonPositiveRedemptionPrice "redemption_price"
  requirePositiveTerm terms.fxRateToBase .nonPositiveFxRate "fx_rate_to_base"
  requireNonnegativeTerm terms.allocatedCostBasisLocal .invalidMonetaryInput
    "allocated_cost_basis_local"
  requireNonnegativeTerm terms.allocatedCostBasisBase .invalidMonetaryInput
    "allocated_cost_basis_base"
  requireNonnegativeTerm terms.accruedInterestProceedsLocal .invalidMonetaryInput
    "accrued_interest_proceeds_local"
  requireNonnegativeTerm terms.embeddedFeeAmountLocal .invalidMonetaryInput
    "embedded_fee_amount_local"
  requireNonnegativeTerm terms.embeddedTaxAmountLocal .invalidMonetaryInput
    "embedded_tax_amount_local"
  match terms.principalProceedsLocal with
  | some x => requireNonnegativeTerm x .invalidMonetaryInput "principal_proceeds_local"
  | none => .ok ()
  match terms.redeemedQuantity with
  | some x => requirePositiveTerm x .nonPositiveRedeemedQuantity "redeemed_quantity"
  | none => .ok ()

/-- `_factor_redeemed_quantity`: the part of the position a factor transition redeems. -/
def factorRedeemedQuantity : Except Raised (Option ℚ) :=
  match terms.oldFactor, terms.newFactor with
  | none, none => .ok none
  | some oldFactor, some newFactor =>
    if oldFactor ≤ 0 ∨ newFactor < 0 ∨ oldFactor ≤ newFactor then
      .error (.redemptionCalculation .invalidFactorTransition "new_factor"
        "factor transition requires 0 <= new_factor < old_factor.")
    else do
      let quantity ← transactionCostLedger.normalize
        (workingRound (workingRound
          (terms.positionQuantity * workingRound (oldFactor - newFactor)) / oldFactor))
        "factor_redeemed_quantity"
      .ok (some quantity)
  | _, _ =>
    .error (.redemptionCalculation .incompleteFactorAuthority "old_factor"
      "old_factor and new_factor must be supplied together.")

/-- The quantity the booking or the factor transition asks for. -/
def requestedRedemptionQuantity : Except Raised ℚ := do
  let factorQuantity ← factorRedeemedQuantity terms
  match terms.redeemedQuantity, factorQuantity with
  | some explicit, some quantity =>
    requireWithinTolerance explicit quantity .quantityAuthorityMismatch "redeemed_quantity"
    .ok explicit
  | some explicit, none => .ok explicit
  | none, some quantity => .ok quantity
  | none, none =>
    .error (.redemptionCalculation .missingQuantityAuthority "redeemed_quantity"
      "redeemed quantity or a complete old/new factor transition is required.")

/-- `_resolve_redeemed_quantity`: a full redemption takes the whole position. -/
def resolveRedeemedQuantity : Except Raised ℚ := do
  let quantity ← requestedRedemptionQuantity terms
  if terms.positionQuantity < quantity then
    .error (.redemptionCalculation .quantityExceedsPosition "redeemed_quantity"
      "redeemed quantity must not exceed the available position quantity.")
  else if terms.transactionType.isFullRedemption then do
    requireWithinTolerance quantity terms.positionQuantity .fullRedemptionQuantityMismatch
      "redeemed_quantity"
    transactionCostLedger.normalize terms.positionQuantity "redeemed_quantity"
  else if terms.positionQuantity ≤ quantity then
    .error (.redemptionCalculation .partialRedemptionClosesPosition "redeemed_quantity"
      "PARTIAL_REDEMPTION must leave a positive remaining position.")
  else transactionCostLedger.normalize quantity "redeemed_quantity"

def resolvePrincipalProceeds (derived : ℚ) : Except Raised ℚ :=
  match terms.principalProceedsLocal with
  | none => .ok derived
  | some principal => do
    requireWithinTolerance principal derived .principalProceedsMismatch "principal_proceeds_local"
    transactionCostLedger.normalize principal "principal_proceeds_local"

def calculateRedemptionEconomics :
    Except Raised RedemptionEconomics := do
  validateRedemptionTerms terms
  let quantity ← resolveRedeemedQuantity terms
  let derivedPrincipal ← transactionCostLedger.normalize
    (workingRound (quantity * terms.redemptionPrice)) "derived_principal_proceeds_local"
  let principal ← resolvePrincipalProceeds terms derivedPrincipal
  let accruedInterest ← transactionCostLedger.normalize terms.accruedInterestProceedsLocal
    "accrued_interest_proceeds_local"
  let embeddedFees ← transactionCostLedger.normalize terms.embeddedFeeAmountLocal
    "embedded_fee_amount_local"
  let embeddedTaxes ← transactionCostLedger.normalize terms.embeddedTaxAmountLocal
    "embedded_tax_amount_local"
  let grossCash ← transactionCostLedger.add principal accruedInterest "gross_cash_proceeds_local"
  let deductions ← transactionCostLedger.add embeddedFees embeddedTaxes
    "embedded_deductions_local"
  let totalCash ← transactionCostLedger.subtract grossCash deductions "total_cash_proceeds_local"
  if totalCash < 0 then
    .error (.redemptionCalculation .negativeTotalCashProceeds "total_cash_proceeds_local"
      "principal plus interest must cover embedded fees and taxes.")
  else do
    let remainingQuantity ← transactionCostLedger.subtract terms.positionQuantity quantity
      "remaining_quantity"
    let principalBase ← transactionCostLedger.multiply principal terms.fxRateToBase
      "principal_proceeds_base"
    let capitalPnlLocal ← transactionCostLedger.subtract principal terms.allocatedCostBasisLocal
      "realized_capital_pnl_local"
    let capitalPnlBase ← transactionCostLedger.subtract principalBase terms.allocatedCostBasisBase
      "realized_capital_pnl_base"
    .ok ⟨quantity, remainingQuantity, derivedPrincipal, principal, accruedInterest, totalCash,
      principalBase, capitalPnlLocal, capitalPnlBase⟩

/-- `_redemption_terms`: an explicit zero quantity with a factor transition asks for the factor
quantity. -/
def redemptionTerms (t : CostBasisTransaction) (positionQuantity allocatedCostBasisLocal
    allocatedCostBasisBase : ℚ) : RedemptionTerms where
  transactionType := t.transactionType
  positionQuantity := positionQuantity
  redemptionPrice := t.price
  allocatedCostBasisLocal := allocatedCostBasisLocal
  allocatedCostBasisBase := allocatedCostBasisBase
  fxRateToBase := t.fxRateOrOne
  redeemedQuantity :=
    if t.quantity = 0 ∧ (t.oldFactor.isSome ∨ t.newFactor.isSome) then none else some t.quantity
  oldFactor := t.oldFactor
  newFactor := t.newFactor
  principalProceedsLocal := t.principalProceedsLocal
  accruedInterestProceedsLocal := t.accruedInterestProceedsLocal.getD 0
  embeddedFeeAmountLocal := t.embeddedFeeAmountLocal.getD 0
  embeddedTaxAmountLocal := t.embeddedTaxAmountLocal.getD 0

/-! ## Completed calculations -/

section Pass

variable {terms : RedemptionTerms} {x y : ℚ} {u : Unit} {code : RedemptionCalculationReasonCode}
  {field : String}

theorem requirePositiveTerm_eq_ok : requirePositiveTerm x code field = .ok u ↔ 0 < x := by
  unfold requirePositiveTerm
  split_ifs with h
  · simpa using h
  · simpa using h

theorem requireNonnegativeTerm_eq_ok : requireNonnegativeTerm x code field = .ok u ↔ 0 ≤ x := by
  unfold requireNonnegativeTerm
  split_ifs with h
  · simpa using h
  · simpa using h

theorem requireWithinTolerance_eq_ok :
    requireWithinTolerance x y code field = .ok u ↔
      |ambientContext.round (x - y)| ≤ reconciliationTolerance := by
  unfold requireWithinTolerance
  split_ifs with h
  · simpa using h
  · simpa using h

/-- The signs a redemption must have. -/
structure RedemptionTerms.Valid (terms : RedemptionTerms) : Prop where
  isRedemption : terms.transactionType.isRedemption = true
  position_pos : 0 < terms.positionQuantity
  price_nonneg : 0 ≤ terms.redemptionPrice
  fx_pos : 0 < terms.fxRateToBase
  costLocal_nonneg : 0 ≤ terms.allocatedCostBasisLocal
  costBase_nonneg : 0 ≤ terms.allocatedCostBasisBase
  interest_nonneg : 0 ≤ terms.accruedInterestProceedsLocal
  fees_nonneg : 0 ≤ terms.embeddedFeeAmountLocal
  taxes_nonneg : 0 ≤ terms.embeddedTaxAmountLocal
  principal_nonneg : ∀ x ∈ terms.principalProceedsLocal, 0 ≤ x
  quantity_pos : ∀ x ∈ terms.redeemedQuantity, 0 < x

theorem validateRedemptionTerms_eq_ok : validateRedemptionTerms terms = .ok u ↔ terms.Valid := by
  have hquantity : (match terms.redeemedQuantity with
      | some x => requirePositiveTerm x .nonPositiveRedeemedQuantity "redeemed_quantity"
      | none => .ok ()) = .ok u ↔ ∀ x ∈ terms.redeemedQuantity, 0 < x := by
    cases terms.redeemedQuantity with
    | none => simp
    | some x => simp [requirePositiveTerm_eq_ok]
  unfold validateRedemptionTerms
  by_cases htype : terms.transactionType.isRedemption = true
  · simp only [htype, Bool.not_true, Bool.false_eq_true, if_false, except_bind_eq_ok,
      requirePositiveTerm_eq_ok, requireNonnegativeTerm_eq_ok, exists_const]
    constructor
    · rintro ⟨h1, h2, h3, h4, h5, h6, h7, h8, h⟩
      cases hp : terms.principalProceedsLocal with
      | none =>
        rw [hp] at h
        exact ⟨htype, h1, h2, h3, h4, h5, h6, h7, h8, by simp [hp], hquantity.mp h⟩
      | some x =>
        rw [hp] at h
        obtain ⟨_, hx, h⟩ := except_bind_eq_ok.mp h
        exact ⟨htype, h1, h2, h3, h4, h5, h6, h7, h8,
          by simpa [hp] using requireNonnegativeTerm_eq_ok.mp hx, hquantity.mp h⟩
    · rintro ⟨-, h1, h2, h3, h4, h5, h6, h7, h8, h9, h10⟩
      refine ⟨h1, h2, h3, h4, h5, h6, h7, h8, ?_⟩
      cases hp : terms.principalProceedsLocal with
      | none => exact hquantity.mpr h10
      | some x =>
        exact except_bind_eq_ok.mpr
          ⟨(), requireNonnegativeTerm_eq_ok.mpr (h9 x hp), hquantity.mpr h10⟩
  · simp only [htype, Bool.not_false, if_true]
    constructor
    · intro h
      obtain ⟨_, herror, -⟩ := except_bind_eq_ok.mp h
      cases herror
    · exact fun h => absurd h.isRedemption htype

/-- What a calculation that completes went through, up to the costs of the lots. -/
structure RedemptionTerms.Pays (terms : RedemptionTerms) (e : RedemptionEconomics) : Prop where
  derived : transactionCostLedger.normalize (workingRound (e.redeemedQuantity *
    terms.redemptionPrice)) "derived_principal_proceeds_local" =
      .ok e.derivedPrincipalProceedsLocal
  principal : resolvePrincipalProceeds terms e.derivedPrincipalProceedsLocal =
    .ok e.principalProceedsLocal
  interest : transactionCostLedger.normalize terms.accruedInterestProceedsLocal
    "accrued_interest_proceeds_local" = .ok e.accruedInterestProceedsLocal
  cash : ∃ fees taxes gross deductions,
    transactionCostLedger.normalize terms.embeddedFeeAmountLocal "embedded_fee_amount_local" =
      .ok fees ∧
    transactionCostLedger.normalize terms.embeddedTaxAmountLocal "embedded_tax_amount_local" =
      .ok taxes ∧
    transactionCostLedger.add e.principalProceedsLocal e.accruedInterestProceedsLocal
      "gross_cash_proceeds_local" = .ok gross ∧
    transactionCostLedger.add fees taxes "embedded_deductions_local" = .ok deductions ∧
    transactionCostLedger.subtract gross deductions "total_cash_proceeds_local" =
      .ok e.totalCashProceedsLocal
  cash_nonneg : 0 ≤ e.totalCashProceedsLocal
  remaining : transactionCostLedger.subtract terms.positionQuantity e.redeemedQuantity
    "remaining_quantity" = .ok e.remainingQuantity
  principalBase : transactionCostLedger.multiply e.principalProceedsLocal terms.fxRateToBase
    "principal_proceeds_base" = .ok e.principalProceedsBase

theorem calculateRedemptionEconomics_eq_ok {e : RedemptionEconomics} :
    calculateRedemptionEconomics terms = .ok e ↔
      terms.Valid ∧ resolveRedeemedQuantity terms = .ok e.redeemedQuantity ∧ terms.Pays e ∧
        transactionCostLedger.subtract e.principalProceedsLocal terms.allocatedCostBasisLocal
          "realized_capital_pnl_local" = .ok e.realizedCapitalPnlLocal ∧
        transactionCostLedger.subtract e.principalProceedsBase terms.allocatedCostBasisBase
          "realized_capital_pnl_base" = .ok e.realizedCapitalPnlBase := by
  unfold calculateRedemptionEconomics
  simp only [except_bind_eq_ok, validateRedemptionTerms_eq_ok, exists_const]
  constructor
  · rintro ⟨hvalid, q, hq, derived, hderived, principal, hprincipal, interest, hinterest, fees,
      hfees, taxes, htaxes, gross, hgross, deductions, hdeductions, cash, hcash, h⟩
    split_ifs at h with hneg
    obtain ⟨remaining, hremaining, h⟩ := except_bind_eq_ok.mp h
    obtain ⟨base, hbase, h⟩ := except_bind_eq_ok.mp h
    obtain ⟨pnlLocal, hpnlLocal, h⟩ := except_bind_eq_ok.mp h
    obtain ⟨pnlBase, hpnlBase, h⟩ := except_bind_eq_ok.mp h
    cases h
    exact ⟨hvalid, hq, ⟨hderived, hprincipal, hinterest,
      ⟨fees, taxes, gross, deductions, hfees, htaxes, hgross, hdeductions, hcash⟩, not_lt.mp hneg,
      hremaining, hbase⟩, hpnlLocal, hpnlBase⟩
  · rintro ⟨hvalid, hq, ⟨hderived, hprincipal, hinterest,
      ⟨fees, taxes, gross, deductions, hfees, htaxes, hgross, hdeductions, hcash⟩, hnonneg,
      hremaining, hbase⟩, hpnlLocal, hpnlBase⟩
    refine ⟨hvalid, _, hq, _, hderived, _, hprincipal, _, hinterest, fees, hfees, taxes, htaxes,
      gross, hgross, deductions, hdeductions, _, hcash, ?_⟩
    rw [if_neg (not_lt.mpr hnonneg)]
    exact except_bind_eq_ok.mpr ⟨_, hremaining, except_bind_eq_ok.mpr ⟨_, hbase,
      except_bind_eq_ok.mpr ⟨_, hpnlLocal, except_bind_eq_ok.mpr ⟨_, hpnlBase, rfl⟩⟩⟩⟩

/-- The part of a position that a factor transition redeems, rounded to the ledger. -/
def factorShare (position oldFactor newFactor : ℚ) : ℚ :=
  quantize 10 (workingRound (workingRound (position * workingRound (oldFactor - newFactor)) /
    oldFactor))

theorem factorShare_nonneg {position oldFactor newFactor : ℚ} (hp : 0 ≤ position)
    (hold : 0 ≤ oldFactor) (hle : newFactor ≤ oldFactor) :
    0 ≤ factorShare position oldFactor newFactor := by
  refine quantize_nonneg (workingRound_nonneg (div_nonneg ?_ hold))
  exact workingRound_nonneg
    (mul_nonneg hp (workingRound_nonneg (sub_nonneg.mpr hle)))

theorem factorRedeemedQuantity_eq_ok {o : Option ℚ} :
    factorRedeemedQuantity terms = .ok o ↔
      (terms.oldFactor = none ∧ terms.newFactor = none ∧ o = none) ∨
      ∃ oldFactor newFactor, terms.oldFactor = some oldFactor ∧ terms.newFactor = some newFactor ∧
        0 < oldFactor ∧ 0 ≤ newFactor ∧ newFactor < oldFactor ∧
        o = some (factorShare terms.positionQuantity oldFactor newFactor) ∧
        Storable (factorShare terms.positionQuantity oldFactor newFactor) := by
  unfold factorRedeemedQuantity
  rcases hold : terms.oldFactor with _ | oldFactor <;>
    rcases hnew : terms.newFactor with _ | newFactor
  · simp [eq_comm]
  · simp
  · simp
  · by_cases hbad : oldFactor ≤ 0 ∨ newFactor < 0 ∨ oldFactor ≤ newFactor
    · simp only [hbad, if_true, reduceCtorEq, false_and, false_or, Option.some.injEq, false_iff]
      rintro ⟨_, _, rfl, rfl, h1, h2, h3, -⟩
      rcases hbad with h | h | h <;> linarith
    · simp only [hbad, if_false, reduceCtorEq, false_and, false_or, Option.some.injEq,
        except_bind_eq_ok, normalize_eq_ok, Except.ok.injEq]
      simp only [not_or, not_le, not_lt] at hbad
      constructor
      · rintro ⟨_, ⟨rfl, hst⟩, rfl⟩
        exact ⟨_, _, rfl, rfl, hbad.1, hbad.2.1, hbad.2.2, rfl, hst⟩
      · rintro ⟨_, _, rfl, rfl, -, -, -, rfl, hst⟩
        exact ⟨_, ⟨rfl, hst⟩, rfl⟩

/-- The quantity a pass resolves is the position of a full redemption and the rounded request of a
partial one. -/
theorem resolveRedeemedQuantity_eq_ok :
    resolveRedeemedQuantity terms = .ok x ↔
      ∃ q, requestedRedemptionQuantity terms = .ok q ∧ q ≤ terms.positionQuantity ∧ Storable x ∧
        if terms.transactionType.isFullRedemption then
          |ambientContext.round (q - terms.positionQuantity)| ≤ reconciliationTolerance ∧
            x = quantize 10 terms.positionQuantity
        else q < terms.positionQuantity ∧ x = quantize 10 q := by
  unfold resolveRedeemedQuantity
  rw [except_bind_eq_ok]
  refine exists_congr fun q => and_congr_right fun _ => ?_
  by_cases hover : terms.positionQuantity < q
  · simp [hover, not_le.mpr hover]
  rw [if_neg hover]
  by_cases hfull : terms.transactionType.isFullRedemption = true
  · simp only [hfull, if_true, except_bind_eq_ok, requireWithinTolerance_eq_ok, exists_const,
      normalize_eq_ok]
    have hle := not_lt.mp hover
    tauto
  · simp only [hfull, Bool.false_eq_true, if_false]
    by_cases hclose : terms.positionQuantity ≤ q
    · simp [hclose, not_lt.mpr hclose]
    · rw [if_neg hclose, normalize_eq_ok]
      have hle := not_lt.mp hover
      have hlt := not_le.mp hclose
      tauto

end Pass

end LotusCore
