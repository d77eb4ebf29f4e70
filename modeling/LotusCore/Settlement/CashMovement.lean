import LotusCore.Transaction.Redemption

/-!
# Settlement cash of a product transaction

The signed cash a purchase, sale, income payment or redemption settles with, and the cash leg that
is generated for it. All intermediate arithmetic has 64 digits.

* `calculateSettlementCashMovement`: the canonical signed amount.
* `buildGeneratedSettlementCashLeg`: the adjustment that books it.
* `buildRedemptionAccruedInterestComponent`: the income inside a redemption.
-/

namespace LotusCore.Settlement

open Decimal

/-- `BookedTransaction`, as far as settlement and cashflows read it. Instants are microseconds. -/
structure BookedTransaction where
  transactionId : String
  portfolioId : String
  instrumentId : String
  securityId : String
  transactionDate : ℤ
  transactionType : TransactionType
  quantity : ℚ
  price : ℚ
  grossTransactionAmount : ℚ
  tradeCurrency : String
  currency : String
  tradeFee : Option ℚ := some 0
  brokerage : Option ℚ := none
  stampDuty : Option ℚ := none
  exchangeFee : Option ℚ := none
  gst : Option ℚ := none
  otherFees : Option ℚ := none
  settlementDate : Option ℤ := none
  netCost : Option ℚ := none
  grossCost : Option ℚ := none
  transactionFxRate : Option ℚ := none
  transactionFxRateOrigin : Option String := none
  netCostLocal : Option ℚ := none
  economicEventId : Option String := none
  linkedTransactionGroupId : Option String := none
  calculationPolicyId : Option String := none
  calculationPolicyVersion : Option String := none
  sourceSystem : Option String := none
  cashEntryMode : Option String := none
  externalCashTransactionId : Option String := none
  settlementCashAccountId : Option String := none
  settlementCashInstrumentId : Option String := none
  movementDirection : Option String := none
  originatingTransactionId : Option String := none
  originatingTransactionType : Option String := none
  adjustmentReason : Option String := none
  linkType : Option String := none
  reconciliationKey : Option String := none
  interestDirection : Option String := none
  withholdingTaxAmount : Option ℚ := none
  otherInterestDeductionsAmount : Option ℚ := none
  netInterestAmount : Option ℚ := none
  componentType : Option String := none
  componentId : Option String := none
  linkedComponentIds : Option (List String) := none
  parentTransactionReference : Option String := none
  parentEventReference : Option String := none
  principalProceedsLocal : Option ℚ := none
  accruedInterestProceedsLocal : Option ℚ := none
  embeddedFeeAmountLocal : Option ℚ := none
  embeddedTaxAmountLocal : Option ℚ := none
  hasSyntheticFlow : Option Bool := none
  syntheticFlowEffectiveDate : Option ℤ := none
  syntheticFlowAmountLocal : Option ℚ := none
  syntheticFlowCurrency : Option String := none
  syntheticFlowClassification : Option String := none
  epoch : Option ℤ := none
  tenantId : Option String := none
  deriving DecidableEq

/-- `SettlementCashRejectionReasonCode`. -/
inductive RejectionReason
  | sellNonPositiveNetSettlement
  | dividendNonPositiveNetSettlement
  | dividendNegativeWithholdingTax
  | dividendWithholdingExceedsGrossAmount
  | interestNetReconciliationMismatch
  | interestNonPositiveNetSettlement
  | interestNegativePreFeeNet
  | redemptionNonPositiveNetSettlement
  deriving DecidableEq

/-- What the settlement functions raise. -/
inductive SettlementError
  /-- `ValueError` with its text. -/
  | valueError (message : String)
  /-- `SettlementCashValidationError`. -/
  | settlementCash (reasonCode : RejectionReason) (field message : String)
      (availableProceeds feeAmount netSettlementAmount : ℚ)
  /-- `GeneratedCashLegError`. -/
  | generatedCashLeg (field message : String)
  /-- `FxValidationError`, by the fields it names. -/
  | fxValidation (fields : List String)
  /-- A value that does not fit its decimal policy. -/
  | decimal (raised : Raised)
  deriving DecidableEq

/-- A computation of the ledger policies. -/
def ofDecimal {α : Type} : Except Raised α → Except SettlementError α
  | .ok a => .ok a
  | .error e => .error (.decimal e)

/-- `value or default` on texts. -/
def orText (text : Option String) (default : String) : String :=
  if text.getD "" = "" then default else text.getD ""

/-! ## Fees -/

section Movement

variable (t : BookedTransaction)

def ensureNonNegativeFeeAmount (amount : ℚ) (fieldName : String) : Except SettlementError ℚ :=
  if amount < 0 then .error (.valueError (fieldName ++ " must be greater than or equal to zero."))
  else .ok amount

/-- The components with the names of their fields. -/
def feeComponents : List (String × Option ℚ) :=
  [("brokerage", t.brokerage), ("stamp_duty", t.stampDuty), ("exchange_fee", t.exchangeFee),
    ("gst", t.gst), ("other_fees", t.otherFees)]

/-- `_total_fee_component_amount`: the sum of the components, each checked before it is added. -/
def totalFeeComponentAmount : ℚ → List (String × Option ℚ) → Except SettlementError ℚ
  | total, [] => .ok total
  | total, (fieldName, value) :: rest => do
    let amount ← ensureNonNegativeFeeAmount (value.getD 0) fieldName
    totalFeeComponentAmount (workingRound (total + amount)) rest

/-- The trade fee as booked, checked. -/
def bookedTradeFee : Except SettlementError (Option ℚ) :=
  match t.tradeFee with
  | none => .ok none
  | some fee => some <$> ensureNonNegativeFeeAmount fee "trade_fee"

/-- Any component replaces the trade fee by the sum of the components. -/
def resolveTransactionTradeFee : Except SettlementError (Option ℚ) := do
  let tradeFee ← bookedTradeFee t
  if ∀ component ∈ feeComponents t, component.2 = none then .ok tradeFee
  else some <$> totalFeeComponentAmount 0 (feeComponents t)

/-- `_resolve_fee_amount`, also `_resolve_cashflow_trade_fee`. -/
def resolveFeeAmount : Except SettlementError ℚ := do
  let fee ← resolveTransactionTradeFee t
  .ok (fee.getD 0)

/-! ## Movements -/

/-- The signed cash of a settlement and why it moves. -/
structure SettlementCashMovement where
  signedAmount : ℚ
  feeAmount : ℚ
  adjustmentReason : String
  deriving DecidableEq

/-- The magnitude that is posted. -/
def SettlementCashMovement.amount (m : SettlementCashMovement) : ℚ := |m.signedAmount|

def SettlementCashMovement.movementDirection (m : SettlementCashMovement) : String :=
  if 0 < m.signedAmount then "INFLOW" else "OUTFLOW"

/-- Gross amount and fee are paid. -/
def calculateBuyMovement (fee : ℚ) : Except SettlementError SettlementCashMovement :=
  .ok ⟨workingRound (-workingRound (t.grossTransactionAmount + fee)), fee, "BUY_SETTLEMENT"⟩

/-- Proceeds less the fee, which must stay positive. -/
def calculatePositiveProceedsMovement (availableProceeds fee : ℚ) (reasonCode : RejectionReason)
    (adjustmentReason deductionDescription : String) :
    Except SettlementError SettlementCashMovement :=
  let netSettlement := workingRound (availableProceeds - fee)
  if netSettlement ≤ 0 then
    .error (.settlementCash reasonCode "trade_fee"
      (t.transactionType.code ++ " settlement cash must remain greater than zero after " ++
        deductionDescription ++ ".") availableProceeds fee netSettlement)
  else .ok ⟨netSettlement, fee, adjustmentReason⟩

/-- The gross amount is received. -/
def calculateSellMovement (fee : ℚ) : Except SettlementError SettlementCashMovement :=
  calculatePositiveProceedsMovement t t.grossTransactionAmount fee .sellNonPositiveNetSettlement
    "SELL_SETTLEMENT" "transaction fees"

/-- The principal of a redemption: as booked, or the product of quantity and price. -/
def redemptionPrincipal : Except SettlementError ℚ :=
  match t.principalProceedsLocal with
  | some principal => .ok principal
  | none =>
    let principal := quantize 10 (workingRound (t.quantity * t.price))
    if 10 ^ 54 ≤ |principal| then .error (.decimal .decimalQuantize) else .ok principal

/-- Principal and accrued interest less what is embedded; a net of zero is allowed. -/
def calculateRedemptionMovement (fee : ℚ) : Except SettlementError SettlementCashMovement := do
  let principal ← redemptionPrincipal t
  let accruedInterest := t.accruedInterestProceedsLocal.getD 0
  let embeddedFees := t.embeddedFeeAmountLocal.getD 0
  let embeddedTaxes := t.embeddedTaxAmountLocal.getD 0
  let availableProceeds := workingRound (workingRound (workingRound (principal + accruedInterest) -
    embeddedFees) - embeddedTaxes)
  if workingRound (availableProceeds - fee) = 0 then .ok ⟨0, fee, "REDEMPTION_SETTLEMENT"⟩
  else
    calculatePositiveProceedsMovement t availableProceeds fee .redemptionNonPositiveNetSettlement
      "REDEMPTION_SETTLEMENT" "embedded fees, embedded taxes, and transaction fees"

/-- The gross amount less withholding tax. -/
def calculateDividendMovement (fee : ℚ) : Except SettlementError SettlementCashMovement :=
  let withholdingTax := t.withholdingTaxAmount.getD 0
  let availableProceeds := workingRound (t.grossTransactionAmount - withholdingTax)
  let netSettlement := workingRound (availableProceeds - fee)
  if withholdingTax < 0 then
    .error (.settlementCash .dividendNegativeWithholdingTax "withholding_tax_amount"
      "DIVIDEND withholding_tax_amount must be greater than or equal to zero."
      availableProceeds fee netSettlement)
  else if 0 < t.grossTransactionAmount ∧ t.grossTransactionAmount < withholdingTax then
    .error (.settlementCash .dividendWithholdingExceedsGrossAmount "withholding_tax_amount"
      "DIVIDEND withholding_tax_amount must not exceed gross_transaction_amount."
      availableProceeds fee netSettlement)
  else if availableProceeds = 0 then
    .error (.settlementCash .dividendNonPositiveNetSettlement "withholding_tax_amount"
      ("DIVIDEND settlement cash must remain greater than zero after " ++
        "withholding tax and transaction fees.") availableProceeds fee netSettlement)
  else
    calculatePositiveProceedsMovement t availableProceeds fee .dividendNonPositiveNetSettlement
      "DIVIDEND_SETTLEMENT" "withholding tax and transaction fees"

/-- The net interest, expected and booked, and the cash after the fee. -/
structure InterestSettlementEconomics where
  expectedNetInterestAmount : ℚ
  netInterestAmount : ℚ
  transactionFeeAmount : ℚ
  settlementCashAmount : ℚ

/-- The interest is paid, not received. -/
def isInterestExpense : Bool :=
  normalizeTransactionControlCode (some (orText t.interestDirection "INCOME")) = "EXPENSE"

/-- An expense pays the fee on top. -/
def calculateInterestSettlementEconomics : Except SettlementError InterestSettlementEconomics := do
  let expectedNetInterest := workingRound (workingRound (t.grossTransactionAmount -
    t.withholdingTaxAmount.getD 0) - t.otherInterestDeductionsAmount.getD 0)
  let netInterest := t.netInterestAmount.getD expectedNetInterest
  let transactionFee ← resolveFeeAmount t
  let settlementCash :=
    if isInterestExpense t then workingRound (netInterest + transactionFee)
    else workingRound (netInterest - transactionFee)
  .ok ⟨expectedNetInterest, netInterest, transactionFee, settlementCash⟩

/-- The id of the interest component of a redemption. -/
def redemptionAccruedInterestTransactionId (redemptionTransactionId : String) : String :=
  strip redemptionTransactionId ++ "-ACCRUED-INTEREST"

/-- `REDEMPTION_TRANSACTION_TYPES`, by their texts. -/
def redemptionTransactionTypes : List String :=
  ["MATURITY_REDEMPTION", "CALL_REDEMPTION", "PARTIAL_REDEMPTION"]

/-- The transaction is such a component. -/
def isGeneratedRedemptionAccruedInterest : Bool :=
  let originId := strip (t.originatingTransactionId.getD "")
  let expectedTransactionId := redemptionAccruedInterestTransactionId originId
  t.transactionType = .interest ∧
    normalizeTransactionControlCode t.componentType = "REDEMPTION_ACCRUED_INTEREST" ∧
    originId ≠ "" ∧ strip t.transactionId = expectedTransactionId ∧
    t.componentId = some (expectedTransactionId ++ ":v1") ∧
    normalizeTransactionControlCode t.originatingTransactionType ∈ redemptionTransactionTypes

/-- A booked net must be the expected one; only a generated component may settle at zero. -/
def calculateInterestMovement (fee : ℚ) : Except SettlementError SettlementCashMovement := do
  let economics ← calculateInterestSettlementEconomics t
  let expected := economics.expectedNetInterestAmount
  if expected < 0 then
    .error (.settlementCash .interestNegativePreFeeNet
      "withholding_tax_amount,other_interest_deductions_amount"
      ("INTEREST deductions must not exceed gross_transaction_amount before " ++
        "transaction fees.") expected fee economics.settlementCashAmount)
  else if t.netInterestAmount ≠ none ∧ t.netInterestAmount ≠ some expected then
    .error (.settlementCash .interestNetReconciliationMismatch "net_interest_amount"
      ("net_interest_amount must equal gross_transaction_amount - " ++
        "withholding_tax_amount - other_interest_deductions_amount before transaction fees.")
      expected fee
      (if isInterestExpense t then workingRound (expected + fee)
        else workingRound (expected - fee)))
  else
    let settlementAmount := economics.settlementCashAmount
    if settlementAmount = 0 ∧ isGeneratedRedemptionAccruedInterest t then
      .ok ⟨0, fee, "REDEMPTION_ACCRUED_INTEREST"⟩
    else if settlementAmount ≤ 0 then
      .error (.settlementCash .interestNonPositiveNetSettlement "trade_fee"
        ("INTEREST settlement cash must remain greater than zero after " ++
          "deductions and transaction fees.") economics.netInterestAmount fee settlementAmount)
    else if isInterestExpense t then
      .ok ⟨workingRound (-settlementAmount), fee, "INTEREST_CHARGE_SETTLEMENT"⟩
    else .ok ⟨settlementAmount, fee, "INTEREST_SETTLEMENT"⟩

/-- `ORDINARY_SETTLEMENT_TRANSACTION_TYPES`. -/
def isOrdinarySettlement : TransactionType → Bool
  | .buy | .sell | .dividend | .interest | .maturityRedemption | .callRedemption
  | .partialRedemption => true
  | _ => false

/-- The policy of the type. -/
def settlementMovement (fee : ℚ) : Except SettlementError SettlementCashMovement :=
  match t.transactionType with
  | .buy => calculateBuyMovement t fee
  | .sell => calculateSellMovement t fee
  | .dividend => calculateDividendMovement t fee
  | .interest => calculateInterestMovement t fee
  | _ => calculateRedemptionMovement t fee

/-- `calculate_settlement_cash_movement`. -/
def calculateSettlementCashMovement : Except SettlementError SettlementCashMovement :=
  if ¬ isOrdinarySettlement t.transactionType then
    .error (.valueError (t.transactionType.code ++ " has no ordinary settlement cash policy"))
  else do
    let fee ← resolveFeeAmount t
    settlementMovement t fee

end Movement

/-! ## The generated leg -/

section Leg

variable (t : BookedTransaction)

/-- Who books the cash leg. -/
inductive CashEntryMode
  | autoGenerate
  | upstreamProvided
  deriving DecidableEq

/-- A missing mode generates the leg. -/
def resolveCashEntryMode (value : Option String) : Except SettlementError CashEntryMode :=
  let normalized := normalizeTransactionControlCode (some (orText value "AUTO_GENERATE"))
  if normalized = "AUTO_GENERATE" then .ok .autoGenerate
  else if normalized = "UPSTREAM_PROVIDED" then .ok .upstreamProvided
  else .error (.valueError
    "Unsupported cash_entry_mode. Expected AUTO_GENERATE or UPSTREAM_PROVIDED.")

/-- `should_generate_settlement_cash_leg`; the registry generates legs for the ordinary settlement
types. -/
def shouldGenerateSettlementCashLeg : Except SettlementError Bool :=
  if t.cashEntryMode = none then .ok false
  else do
    let mode ← resolveCashEntryMode t.cashEntryMode
    if ¬ (mode = .autoGenerate ∧ isOrdinarySettlement t.transactionType ∧
        strip (t.settlementCashAccountId.getD "") ≠ "") then .ok false
    else if t.transactionType.isRedemption then do
      let movement ← calculateSettlementCashMovement t
      .ok (movement.signedAmount ≠ 0)
    else .ok true

/-- `_generated_cash_persisted_rate`: the rate, which must fit the ledger. -/
def generatedCashPersistedRate : Except SettlementError (Option ℚ) :=
  match t.transactionFxRate with
  | none => .ok none
  | some rate =>
    some <$> ofDecimal (transactionPersistencePrecision.requireExact rate "transaction_fx_rate")

/-- The cash instrument, or the cash account in its place. -/
def resolveCashInstrumentId : Except SettlementError String :=
  let id := orText t.settlementCashInstrumentId (t.settlementCashAccountId.getD "")
  if id = "" then
    .error (.generatedCashLeg "settlement_cash_instrument_id"
      "Unable to resolve settlement cash instrument identifier.")
  else .ok id

/-- Event and group of the leg, as booked or derived from the product. -/
def resolveGeneratedLinkage : String × String :=
  let suffix := t.transactionType.code ++ "-" ++ t.portfolioId ++ "-" ++ t.transactionId
  (orText t.economicEventId ("EVT-" ++ suffix),
    orText t.linkedTransactionGroupId ("LTG-" ++ suffix))

/-- The base cost, if there is a rate. -/
def generatedCashNetCost (netCostLocal : ℚ) : Except SettlementError (Option ℚ) :=
  match t.transactionFxRate with
  | none => .ok none
  | some rate =>
    some <$> ofDecimal (transactionCostLedger.multiply netCostLocal rate "generated_cash_net_cost")

/-- The adjustment that books the movement. -/
def settlementCashLeg (persistedFxRate : Option ℚ) (cashInstrumentId : String)
    (settlementCash : SettlementCashMovement) (netCostLocal : ℚ) (netCost : Option ℚ) :
    BookedTransaction :=
  let linkage := resolveGeneratedLinkage t
  let settlementAt := t.settlementDate.getD t.transactionDate
  { transactionId := t.transactionId ++ "-CASHLEG"
    portfolioId := t.portfolioId
    tenantId := t.tenantId
    instrumentId := cashInstrumentId
    securityId := cashInstrumentId
    transactionDate := settlementAt
    settlementDate := some settlementAt
    transactionType := .adjustment
    quantity := 0
    price := 0
    grossTransactionAmount := settlementCash.amount
    tradeCurrency := t.tradeCurrency
    currency := t.currency
    transactionFxRate := persistedFxRate
    transactionFxRateOrigin := t.transactionFxRateOrigin
    tradeFee := some 0
    grossCost := netCost
    netCost := netCost
    netCostLocal := some netCostLocal
    economicEventId := some linkage.1
    linkedTransactionGroupId := some linkage.2
    calculationPolicyId := t.calculationPolicyId
    calculationPolicyVersion := t.calculationPolicyVersion
    sourceSystem := t.sourceSystem
    cashEntryMode := some "AUTO_GENERATE"
    settlementCashAccountId := t.settlementCashAccountId
    settlementCashInstrumentId := t.settlementCashInstrumentId
    movementDirection := some settlementCash.movementDirection
    originatingTransactionId := some t.transactionId
    originatingTransactionType := some t.transactionType.code
    adjustmentReason := some settlementCash.adjustmentReason
    linkType := some (t.transactionType.code ++ "_TO_CASH")
    reconciliationKey := t.reconciliationKey }

/-- `build_generated_settlement_cash_leg`, without its lineage. -/
def buildGeneratedSettlementCashLeg : Except SettlementError BookedTransaction := do
  let generates ← shouldGenerateSettlementCashLeg t
  if ¬ generates then
    .error (.generatedCashLeg "cash_entry_mode"
      "Event is not configured for AUTO_GENERATE adjustment cash-leg creation.")
  else
    let persistedFxRate ← generatedCashPersistedRate t
    let cashInstrumentId ← resolveCashInstrumentId t
    let settlementCash ← calculateSettlementCashMovement t
    let netCostLocal ← ofDecimal (transactionCostLedger.normalize settlementCash.signedAmount
      "generated_cash_net_cost_local")
    let netCost ← generatedCashNetCost t netCostLocal
    .ok (settlementCashLeg t persistedFxRate cashInstrumentId settlementCash netCostLocal netCost)

/-- The row that books the interest inside a redemption. -/
def accruedInterestComponent (accruedInterest : ℚ) (linkedCashTransactionId : Option String) :
    BookedTransaction :=
  let transactionId := redemptionAccruedInterestTransactionId t.transactionId
  { transactionId := transactionId
    portfolioId := t.portfolioId
    tenantId := t.tenantId
    instrumentId := t.instrumentId
    securityId := t.securityId
    transactionDate := t.transactionDate
    settlementDate := t.settlementDate
    transactionType := .interest
    quantity := 0
    price := 0
    grossTransactionAmount := accruedInterest
    tradeCurrency := t.tradeCurrency
    currency := t.currency
    tradeFee := some 0
    economicEventId := t.economicEventId
    linkedTransactionGroupId := t.linkedTransactionGroupId
    calculationPolicyId := t.calculationPolicyId
    calculationPolicyVersion := t.calculationPolicyVersion
    sourceSystem := t.sourceSystem
    cashEntryMode := none
    externalCashTransactionId := linkedCashTransactionId
    movementDirection := some "INFLOW"
    originatingTransactionId := some t.transactionId
    originatingTransactionType := some t.transactionType.code
    adjustmentReason := some "REDEMPTION_ACCRUED_INTEREST"
    linkType := some "REDEMPTION_TO_ACCRUED_INTEREST"
    interestDirection := some "INCOME"
    withholdingTaxAmount := some 0
    otherInterestDeductionsAmount := some 0
    netInterestAmount := some accruedInterest
    componentType := some "REDEMPTION_ACCRUED_INTEREST"
    componentId := some (transactionId ++ ":v1")
    linkedComponentIds := linkedCashTransactionId.map fun id => [id]
    parentTransactionReference := some t.transactionId
    parentEventReference := t.parentEventReference
    epoch := t.epoch }

/-- `build_redemption_accrued_interest_component`, without its lineage. -/
def buildRedemptionAccruedInterestComponent (includeZero : Bool) :
    Except SettlementError (Option BookedTransaction) :=
  let accruedInterest := t.accruedInterestProceedsLocal.getD 0
  if ¬ t.transactionType.isRedemption then .ok none
  else if accruedInterest < 0 then
    .error (.valueError "accrued_interest_proceeds_local must be a non-negative finite decimal.")
  else if accruedInterest = 0 ∧ ¬ includeZero then .ok none
  else do
    let movement ← calculateSettlementCashMovement t
    let linkedCash := strip (t.externalCashTransactionId.getD "")
    if movement.signedAmount ≠ 0 ∧ linkedCash = "" then
      .error (.valueError
        "Embedded redemption interest requires a linked settlement cash transaction.")
    else
      .ok (some (accruedInterestComponent t accruedInterest
        (if linkedCash = "" then none else some linkedCash)))

end Leg

end LotusCore.Settlement
