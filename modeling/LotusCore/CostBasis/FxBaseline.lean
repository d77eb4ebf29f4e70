import LotusCore.CostBasis.Transaction
import LotusCore.Exec.Raising

/-!
# The baseline of foreign-exchange components

A component is checked in its canonical form before it is costed, and then gets explicit costs and
realized amounts.

* `FxCanonicalTransaction.fromTransaction`: the canonical form; a text that is no currency code and
  a negative trade fee raise.
* `validateFxTransaction`: the issues, each with its code and its field.
* `fxBaselineUpdate`: the calculated fields of an accepted component.
* **`fxBaselineUpdate_total`**: a total that came with an exchange part is the sum of its parts.
-/

namespace LotusCore

open Decimal Exec

/-! ## Issues -/

/-- `FxValidationReasonCode`. -/
inductive FxValidationReasonCode
  | invalidTransactionType | invalidComponentType | missingComponentId | nonZeroQuantity
  | nonZeroPrice | missingSettlementDate | invalidDateOrder | sameCurrencyNotAllowed
  | missingPairCurrency | invalidQuoteConvention | nonPositiveBuyAmount | nonPositiveSellAmount
  | nonPositiveContractRate | missingLinkageIdentifier | missingPolicyMetadata | invalidFxCashRole
  | missingLinkedFxCashLeg | missingFxContractId | missingSwapGroupIdentifier
  | invalidSpotExposureModel | invalidRealizedPnlMode | nonZeroRealizedCapitalPnl
  | realizedTotalPnlMismatch | invalidSwapGroupStructure | nonZeroEmbeddedFee | nonZeroEmbeddedTax
  deriving Repr, DecidableEq

/-- The text of a code. -/
def FxValidationReasonCode.value : FxValidationReasonCode → String
  | .invalidTransactionType => "FX_001_INVALID_TRANSACTION_TYPE"
  | .invalidComponentType => "FX_002_INVALID_COMPONENT_TYPE"
  | .missingComponentId => "FX_003_MISSING_COMPONENT_ID"
  | .nonZeroQuantity => "FX_004_NON_ZERO_QUANTITY"
  | .nonZeroPrice => "FX_005_NON_ZERO_PRICE"
  | .missingSettlementDate => "FX_006_MISSING_SETTLEMENT_DATE"
  | .invalidDateOrder => "FX_007_INVALID_DATE_ORDER"
  | .sameCurrencyNotAllowed => "FX_008_SAME_CURRENCY_NOT_ALLOWED"
  | .missingPairCurrency => "FX_009_MISSING_PAIR_CURRENCY"
  | .invalidQuoteConvention => "FX_010_INVALID_QUOTE_CONVENTION"
  | .nonPositiveBuyAmount => "FX_011_NON_POSITIVE_BUY_AMOUNT"
  | .nonPositiveSellAmount => "FX_012_NON_POSITIVE_SELL_AMOUNT"
  | .nonPositiveContractRate => "FX_013_NON_POSITIVE_CONTRACT_RATE"
  | .missingLinkageIdentifier => "FX_014_MISSING_LINKAGE_IDENTIFIER"
  | .missingPolicyMetadata => "FX_015_MISSING_POLICY_METADATA"
  | .invalidFxCashRole => "FX_016_INVALID_FX_CASH_ROLE"
  | .missingLinkedFxCashLeg => "FX_017_MISSING_LINKED_FX_CASH_LEG"
  | .missingFxContractId => "FX_018_MISSING_FX_CONTRACT_ID"
  | .missingSwapGroupIdentifier => "FX_019_MISSING_SWAP_GROUP_IDENTIFIER"
  | .invalidSpotExposureModel => "FX_020_INVALID_SPOT_EXPOSURE_MODEL"
  | .invalidRealizedPnlMode => "FX_021_INVALID_REALIZED_PNL_MODE"
  | .nonZeroRealizedCapitalPnl => "FX_022_NON_ZERO_REALIZED_CAPITAL_PNL"
  | .realizedTotalPnlMismatch => "FX_023_REALIZED_TOTAL_PNL_MISMATCH"
  | .invalidSwapGroupStructure => "FX_024_INVALID_SWAP_GROUP_STRUCTURE"
  | .nonZeroEmbeddedFee => "FX_025_NON_ZERO_EMBEDDED_FEE"
  | .nonZeroEmbeddedTax => "FX_026_NON_ZERO_EMBEDDED_TAX"

/-- `FxValidationIssue`: the code and the field it is about. -/
structure FxValidationIssue where
  code : FxValidationReasonCode
  field : String
  deriving Repr, DecidableEq

/-- One check: the issue it appends, if any. -/
def issueIf (p : Prop) [Decidable p] (code : FxValidationReasonCode) (field : String) :
    List FxValidationIssue :=
  if p then [⟨code, field⟩] else []

/-! ## Canonical form -/

/-- `FxCanonicalTransaction`: what it copies from the transaction, with normalized currencies and
the resolved fee. The checks normalize the codes they read. -/
structure FxCanonicalTransaction where
  source : CostBasisTransaction
  terms : FxTerms
  tradeFee : ℚ

/-- `_resolved_source_trade_fee`: the fee components count before the trade fee. -/
def resolvedSourceTradeFee (tradeFee : Option ℚ) (fees : Fees) : Except Raised ℚ := do
  refuseIf (tradeFee.getD 0 < 0) "trade_fee must be greater than or equal to zero."
  let components ← totalFeeComponentAmount [("brokerage", some fees.brokerage),
    ("stamp_duty", some fees.stampDuty), ("exchange_fee", some fees.exchangeFee),
    ("gst", some fees.gst), ("other_fees", some fees.otherFees)]
  .ok (if components ≠ 0 then components else tradeFee.getD 0)

/-- `FxCanonicalTransaction.from_transaction`. -/
def FxCanonicalTransaction.fromTransaction (t : CostBasisTransaction) (terms : FxTerms) :
    Except Raised FxCanonicalTransaction := do
  let tradeFee ← resolvedSourceTradeFee terms.tradeFee t.fees
  let tradeCurrency ← normalizeCurrencyCode t.tradeCurrency
  let currency ← normalizeCurrencyCode terms.currency
  let pairBaseCurrency ← normalizeCurrencyCode (terms.pairBaseCurrency.getD "")
  let pairQuoteCurrency ← normalizeCurrencyCode (terms.pairQuoteCurrency.getD "")
  let buyCurrency ← normalizeCurrencyCode (terms.buyCurrency.getD "")
  let sellCurrency ← normalizeCurrencyCode (terms.sellCurrency.getD "")
  .ok
    { source := { t with tradeCurrency := tradeCurrency }
      terms := { terms with
        currency := currency
        pairBaseCurrency := some pairBaseCurrency
        pairQuoteCurrency := some pairQuoteCurrency
        buyCurrency := some buyCurrency
        sellCurrency := some sellCurrency }
      tradeFee := tradeFee }

/-! ## The checks -/

namespace FxCanonicalTransaction

variable (txn : FxCanonicalTransaction)

/-- `not value`: missing or empty. -/
abbrev blank (value : Option String) : Prop := value.getD "" = ""

/-- `_validate_control_codes`, with `FX_BUSINESS_TRANSACTION_TYPES` and `FX_COMPONENT_TYPES`. -/
def validateControlCodes : List FxValidationIssue :=
  issueIf (txn.source.transactionType ∉ [.fxForward, .fxSpot, .fxSwap])
    .invalidTransactionType "transaction_type" ++
  issueIf (normalizeTransactionControlCode txn.source.componentType ∉ ["FX_CONTRACT_OPEN",
      "FX_CONTRACT_CLOSE", "FX_CASH_SETTLEMENT_BUY", "FX_CASH_SETTLEMENT_SELL"])
    .invalidComponentType "component_type"

/-- `_validate_settlement_dates`. -/
def validateSettlementDates : List FxValidationIssue :=
  match txn.source.settlementDate with
  | none => [⟨.missingSettlementDate, "settlement_date"⟩]
  | some date => issueIf (date < txn.source.transactionDate) .invalidDateOrder "transaction_date"

/-- `_validate_currency_pair`. -/
def validateCurrencyPair : List FxValidationIssue :=
  issueIf (blank txn.terms.pairBaseCurrency ∨ blank txn.terms.pairQuoteCurrency)
    .missingPairCurrency "pair_base_currency" ++
  issueIf (txn.terms.buyCurrency = txn.terms.sellCurrency) .sameCurrencyNotAllowed "buy_currency"

/-- `_validate_positive_amounts_and_rate`. -/
def validatePositiveAmountsAndRate : List FxValidationIssue :=
  issueIf (txn.terms.buyAmount.getD 0 ≤ 0) .nonPositiveBuyAmount "buy_amount" ++
  issueIf (txn.terms.sellAmount.getD 0 ≤ 0) .nonPositiveSellAmount "sell_amount" ++
  issueIf (txn.terms.contractRate.getD 0 ≤ 0) .nonPositiveContractRate "contract_rate"

/-- `_validate_strict_metadata`. -/
def validateStrictMetadata (strictMetadata : Bool) : List FxValidationIssue :=
  if strictMetadata then
    issueIf (blank txn.terms.economicEventId ∨ blank txn.terms.linkedTransactionGroupId)
      .missingLinkageIdentifier "economic_event_id" ++
    issueIf (blank txn.source.calculationPolicyId ∨ blank txn.terms.calculationPolicyVersion)
      .missingPolicyMetadata "calculation_policy_id"
  else []

/-- `_validate_cash_settlement_component`. -/
def validateCashSettlementComponent : List FxValidationIssue :=
  if (normalizeTransactionControlCode txn.source.componentType).startsWith "FX_CASH_SETTLEMENT" then
    issueIf (normalizeTransactionControlCode txn.terms.fxCashLegRole ∉ ["BUY", "SELL"])
      .invalidFxCashRole "fx_cash_leg_role" ++
    issueIf (blank txn.terms.linkedFxCashLegId) .missingLinkedFxCashLeg "linked_fx_cash_leg_id"
  else []

/-- `_validate_contract_identifier`. -/
def validateContractIdentifier : List FxValidationIssue :=
  let component := normalizeTransactionControlCode txn.source.componentType
  issueIf ((txn.source.transactionType ∈ [.fxForward, .fxSwap] ∨
      component.startsWith "FX_CONTRACT") ∧ blank txn.terms.fxContractId)
    .missingFxContractId "fx_contract_id"

/-- `_validate_swap_structure`. -/
def validateSwapStructure : List FxValidationIssue :=
  if txn.source.transactionType ≠ .fxSwap then []
  else if blank txn.terms.swapEventId ∨ blank txn.terms.nearLegGroupId ∨
      blank txn.terms.farLegGroupId then
    [⟨.missingSwapGroupIdentifier, "swap_event_id"⟩]
  else issueIf (txn.terms.nearLegGroupId = txn.terms.farLegGroupId)
    .invalidSwapGroupStructure "near_leg_group_id"

/-- `_validate_optional_policy_modes`. -/
def validateOptionalPolicyModes : List FxValidationIssue :=
  issueIf (txn.terms.spotExposureModel ≠ none ∧
      normalizeTransactionControlCode txn.terms.spotExposureModel ∉ ["NONE", "FX_CONTRACT"])
    .invalidSpotExposureModel "spot_exposure_model" ++
  issueIf (txn.source.fxRealizedPnlMode ≠ none ∧
      normalizeTransactionControlCode txn.source.fxRealizedPnlMode ∉
      ["NONE", "UPSTREAM_PROVIDED", "CASH_LOT_COST_METHOD"])
    .invalidRealizedPnlMode "fx_realized_pnl_mode"

/-- `_validate_realized_total_identity`; the sum is taken in the ambient context. -/
def validateRealizedTotalIdentity (capital fx total : Option ℚ) (totalField : String) :
    List FxValidationIssue :=
  match total, fx with
  | some total, some fx => issueIf (total ≠ ambientContext.round (capital.getD 0 + fx))
      .realizedTotalPnlMismatch totalField
  | _, _ => []

/-- `_validate_realized_pnl_fields`. -/
def validateRealizedPnlFields : List FxValidationIssue :=
  issueIf (txn.source.realizedCapitalPnlLocal.getD 0 ≠ 0)
    .nonZeroRealizedCapitalPnl "realized_capital_pnl_local" ++
  issueIf (txn.source.realizedCapitalPnlBase.getD 0 ≠ 0)
    .nonZeroRealizedCapitalPnl "realized_capital_pnl_base" ++
  validateRealizedTotalIdentity txn.source.realizedCapitalPnlLocal txn.source.realizedFxPnlLocal
    txn.source.realizedTotalPnlLocal "realized_total_pnl_local" ++
  validateRealizedTotalIdentity txn.source.realizedCapitalPnlBase txn.source.realizedFxPnlBase
    txn.source.realizedTotalPnlBase "realized_total_pnl_base"

end FxCanonicalTransaction

/-- `validate_fx_transaction`. -/
def validateFxTransaction (txn : FxCanonicalTransaction) (strictMetadata : Bool) :
    List FxValidationIssue :=
  txn.validateControlCodes ++
  issueIf (strip (txn.terms.componentId.getD "") = "") .missingComponentId "component_id" ++
  issueIf (txn.source.quantity ≠ 0) .nonZeroQuantity "quantity" ++
  issueIf (txn.source.price ≠ 0) .nonZeroPrice "price" ++
  txn.validateSettlementDates ++
  txn.validateCurrencyPair ++
  issueIf (normalizeTransactionControlCode txn.terms.fxRateQuoteConvention ∉
    ["QUOTE_PER_BASE", "BASE_PER_QUOTE"]) .invalidQuoteConvention "fx_rate_quote_convention" ++
  txn.validatePositiveAmountsAndRate ++
  issueIf (txn.tradeFee ≠ 0) .nonZeroEmbeddedFee "trade_fee" ++
  issueIf (txn.terms.withholdingTaxAmount.getD 0 ≠ 0)
    .nonZeroEmbeddedTax "withholding_tax_amount" ++
  txn.validateStrictMetadata strictMetadata ++
  txn.validateCashSettlementComponent ++
  txn.validateContractIdentifier ++
  txn.validateSwapStructure ++
  txn.validateOptionalPolicyModes ++
  txn.validateRealizedPnlFields

/-- `_validate_canonical_fx_transaction`: what it reports, if anything. -/
def validateCanonicalFxTransaction (t : CostBasisTransaction) : Option String :=
  match t.fx with
  | none => some "FX validation failed: required canonical FX fields are incomplete."
  | some terms =>
    match FxCanonicalTransaction.fromTransaction t terms with
    | .error _ =>
      some "FX validation failed: canonical FX fields are incomplete or invalid (ValueError)."
    | .ok canonical =>
      match validateFxTransaction canonical false with
      | [] => none
      | issues => some ("FX validation failed: " ++
          "; ".intercalate (issues.map fun issue => issue.code.value ++ ":" ++ issue.field) ++ ".")

/-! ## The update -/

/-- `_resolve_total_pnl`; the sum is taken in the ambient context. -/
def resolveTotalPnl (total : Option ℚ) (capital fx : ℚ) : ℚ :=
  total.getD (ambientContext.round (capital + fx))

/-- `build_fx_baseline_processing_update`. -/
def fxBaselineUpdate (mode : String) (t : CostBasisTransaction) : CostBasisTransaction :=
  let base := { t with
    fxRealizedPnlMode := some mode
    grossCost := some (t.grossCost.getD 0)
    netCost := some (t.netCost.getD 0)
    realizedGainLoss := some (t.realizedGainLoss.getD 0)
    netCostLocal := some (t.netCostLocal.getD 0)
    realizedGainLossLocal := some (t.realizedGainLossLocal.getD 0) }
  if mode = "NONE" then
    { base with
      realizedCapitalPnlLocal := some 0
      realizedFxPnlLocal := some 0
      realizedTotalPnlLocal := some 0
      realizedCapitalPnlBase := some 0
      realizedFxPnlBase := some 0
      realizedTotalPnlBase := some 0 }
  else
    let capitalLocal := t.realizedCapitalPnlLocal.getD 0
    let capitalBase := t.realizedCapitalPnlBase.getD 0
    let fxLocal := t.realizedFxPnlLocal.getD 0
    let fxBase := t.realizedFxPnlBase.getD 0
    { base with
      realizedCapitalPnlLocal := some capitalLocal
      realizedFxPnlLocal := some fxLocal
      realizedTotalPnlLocal := some (resolveTotalPnl t.realizedTotalPnlLocal capitalLocal fxLocal)
      realizedCapitalPnlBase := some capitalBase
      realizedFxPnlBase := some fxBase
      realizedTotalPnlBase := some (resolveTotalPnl t.realizedTotalPnlBase capitalBase fxBase) }

/-! ## Totals of accepted components -/

theorem issueIf_eq_nil {p : Prop} [Decidable p] {code : FxValidationReasonCode} {field : String} :
    issueIf p code field = [] ↔ ¬ p := by
  unfold issueIf
  split_ifs with h <;> simp [h]

theorem validateCanonicalFxTransaction_eq_none {t : CostBasisTransaction}
    (h : validateCanonicalFxTransaction t = none) : ∃ terms canonical,
      FxCanonicalTransaction.fromTransaction t terms = .ok canonical ∧
        validateFxTransaction canonical false = [] := by
  unfold validateCanonicalFxTransaction at h
  split at h
  · cases h
  · next terms _ =>
    split at h
    · cases h
    · next canonical hcanonical =>
      split at h
      · next hissues => exact ⟨terms, canonical, hcanonical, hissues⟩
      · cases h

theorem fromTransaction_source {t : CostBasisTransaction} {terms : FxTerms}
    {txn : FxCanonicalTransaction}
    (h : FxCanonicalTransaction.fromTransaction t terms = .ok txn) :
    ∃ currency, txn.source = { t with tradeCurrency := currency } := by
  obtain ⟨_, -, h⟩ := except_bind_eq_ok.1 h
  obtain ⟨currency, -, h⟩ := except_bind_eq_ok.1 h
  obtain ⟨_, -, h⟩ := except_bind_eq_ok.1 h
  obtain ⟨_, -, h⟩ := except_bind_eq_ok.1 h
  obtain ⟨_, -, h⟩ := except_bind_eq_ok.1 h
  obtain ⟨_, -, h⟩ := except_bind_eq_ok.1 h
  obtain ⟨_, -, h⟩ := except_bind_eq_ok.1 h
  cases h
  exact ⟨currency, rfl⟩

theorem resolveTotalPnl_eq {capital fx total : Option ℚ} {field : String}
    (hidentity : FxCanonicalTransaction.validateRealizedTotalIdentity capital fx total field = [])
    (hcapital : capital.getD 0 = 0) (hfx : fx ≠ none) :
    resolveTotalPnl total (capital.getD 0) (fx.getD 0) = ambientContext.round (fx.getD 0) := by
  obtain ⟨fx, rfl⟩ := Option.ne_none_iff_exists'.1 hfx
  cases total with
  | none => simp [resolveTotalPnl, hcapital]
  | some total =>
    have htotal := issueIf_eq_nil.1 hidentity
    rw [not_not, hcapital, zero_add] at htotal
    exact htotal

/-- An accepted component with an exchange part gets a total that is this part, in each currency; a
total that came without one is taken over unchecked. -/
theorem fxBaselineUpdate_total {t : CostBasisTransaction} {mode : String}
    (haccepted : validateCanonicalFxTransaction t = none) (hmode : mode ≠ "NONE") :
    (t.realizedFxPnlLocal ≠ none → (fxBaselineUpdate mode t).realizedTotalPnlLocal =
      some (ambientContext.round (t.realizedFxPnlLocal.getD 0))) ∧
    (t.realizedFxPnlBase ≠ none → (fxBaselineUpdate mode t).realizedTotalPnlBase =
      some (ambientContext.round (t.realizedFxPnlBase.getD 0))) := by
  obtain ⟨terms, txn, hcanonical, hissues⟩ := validateCanonicalFxTransaction_eq_none haccepted
  obtain ⟨_, hsource⟩ := fromTransaction_source hcanonical
  have hrealized := (List.append_eq_nil_iff.1 hissues).2
  simp only [FxCanonicalTransaction.validateRealizedPnlFields, List.append_eq_nil_iff,
    issueIf_eq_nil, not_not, hsource] at hrealized
  obtain ⟨⟨⟨hlocal, hbase⟩, hlocalTotal⟩, hbaseTotal⟩ := hrealized
  simp only [fxBaselineUpdate, if_neg hmode]
  exact ⟨fun hfx => congrArg some (resolveTotalPnl_eq hlocalTotal hlocal hfx),
    fun hfx => congrArg some (resolveTotalPnl_eq hbaseTotal hbase hfx)⟩

end LotusCore
