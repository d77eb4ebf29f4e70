import LotusCore.Position.Reducer
import LotusCore.Settlement.CashMovement

/-!
# Cashflows and position movements of booked transactions

The cashflow a booked transaction is reported with. Ordinary settlement types report their
settlement cash, adjustments the amount their direction says, and everything else the amount their
classification says; rows restated from history keep the signing they were accepted with.

* `calculateTransactionCashflow`: the cashflow.
* `positionTerms`: what the position reducer reads of the same row.
-/

namespace LotusCore.Settlement

open Decimal

/-- `CashflowRule`. -/
structure CashflowRule where
  classification : CashflowClassification
  timing : String
  isPositionFlow : Bool
  isPortfolioFlow : Bool

/-- `CashflowCalculationContext`. -/
inductive CalculationContext
  | currentBooking
  | historicalRebuild
  deriving DecidableEq

/-- `CashflowCalculationType`, as far as it occurs. -/
inductive CalculationType
  | net
  | mvt
  deriving DecidableEq

/-- `CalculatedCashflow`, without its lineage. -/
structure CalculatedCashflow where
  transactionId : String
  portfolioId : String
  securityId : String
  cashflowDate : ℤ
  amount : ℚ
  currency : String
  classification : CashflowClassification
  timing : String
  calculationType : CalculationType
  isPositionFlow : Bool
  isPortfolioFlow : Bool
  economicEventId : Option String
  linkedTransactionGroupId : Option String
  epoch : ℤ
  deriving DecidableEq

structure CashflowEconomics where
  amount : ℚ
  currency : String
  calculationType : CalculationType

/-- `CASHFLOW_LEDGER_OUTPUT_V1`. -/
abbrev cashflowLedger : CalculatedDecimalPolicy := ledgerPolicy "cashflow-ledger-output" "1.0.0"

/-- `TRANSFER_INFLOW_TRANSACTION_TYPES`. -/
def isTransferInflow : TransactionType → Bool
  | .transferIn | .mergerIn | .exchangeIn | .replacementIn | .spinIn | .demergerIn | .split
  | .bonusIssue | .stockDividend | .rightsAllocate | .rightsShareDelivery | .rightsRefund => true
  | _ => false

/-- `TRANSFER_OUTFLOW_TRANSACTION_TYPES`. -/
def isTransferOutflow : TransactionType → Bool
  | .transferOut | .mergerOut | .exchangeOut | .replacementOut | .spinOff | .demergerOut
  | .reverseSplit | .consolidation | .rightsExpire | .rightsSell | .rightsSubscribe
  | .rightsOversubscribe => true
  | _ => false

/-- `_SETTLEMENT_DATED_TRANSACTION_TYPES` and `_PAYMENT_DATED_TRANSACTION_TYPES`. -/
def isSettlementDated : TransactionType → Bool
  | .buy | .sell | .deposit | .withdrawal | .fxCashSettlementBuy | .fxCashSettlementSell
  | .maturityRedemption | .callRedemption | .partialRedemption | .dividend | .interest => true
  | _ => false

section Cashflow

variable (t : BookedTransaction) (rule : CashflowRule) (type : TransactionType)

/-- The fields of a booked transaction that the position reads. -/
def positionTerms : CostBasisTransaction where
  transactionId := t.transactionId
  portfolioId := t.portfolioId
  instrumentId := t.instrumentId
  securityId := t.securityId
  transactionType := t.transactionType
  transactionDate := t.transactionDate
  settlementDate := t.settlementDate
  quantity := t.quantity
  grossTransactionAmount := t.grossTransactionAmount
  tradeCurrency := t.tradeCurrency
  portfolioBaseCurrency := ""
  transactionFxRate := t.transactionFxRate
  netCost := t.netCost
  grossCost := t.grossCost
  netCostLocal := t.netCostLocal
  componentType := t.componentType
  movementDirection := t.movementDirection

/-- `resolve_effective_processing_transaction_type`. -/
def processingType : TransactionType := effectiveProcessingType (positionTerms t)

/-- `abs(amount)` or `-abs(amount)`. -/
def signedMagnitude (positive : Bool) (amount : ℚ) : ℚ :=
  if positive then workingRound |amount| else workingRound (-workingRound |amount|)

/-- The charges that an FX cash component must not bear. -/
def fxCashChargeIssues (tradeFee : ℚ) : List String :=
  (if tradeFee = 0 then [] else ["trade_fee"]) ++
    if t.withholdingTaxAmount.getD 0 = 0 then [] else ["withholding_tax_amount"]

def baseCashflowAmount : Except SettlementError ℚ := do
  let tradeFee ← resolveFeeAmount t
  if (type = .fxCashSettlementBuy ∨ type = .fxCashSettlementSell) ∧
      fxCashChargeIssues t tradeFee ≠ [] then
    .error (.fxValidation (fxCashChargeIssues t tradeFee))
  else if type = .buy ∨ type = .fee then
    .ok (workingRound (t.grossTransactionAmount + tradeFee))
  else .ok (workingRound (t.grossTransactionAmount - tradeFee))

def signedAdjustmentAmount (amount : ℚ) : ℚ :=
  signedMagnitude (normalizeTransactionControlCode (some (orText t.movementDirection "INFLOW")) =
    "INFLOW") amount

def signedTransferAmount (amount : ℚ) : ℚ :=
  if isTransferInflow type then signedMagnitude true amount
  else if isTransferOutflow type then signedMagnitude false amount
  else signedMagnitude (0 < t.quantity) amount

def signedCashflowAmount (amount : ℚ) : ℚ :=
  if type = .adjustment then signedAdjustmentAmount t amount
  else if rule.classification = .transfer then signedTransferAmount t type amount
  else signedMagnitude rule.classification.isPositive amount

/-- The cashflow of a redemption: its settlement without the interest in it. -/
def redemptionCashflowAmount : Except SettlementError ℚ := do
  let movement ← calculateSettlementCashMovement t
  .ok (workingRound (movement.signedAmount - t.accruedInterestProceedsLocal.getD 0))

/-- The signing of history behind the dividend rule. -/
def historicalSignedAmount : Except SettlementError ℚ :=
  if type = .interest then do
    let economics ← calculateInterestSettlementEconomics t
    .ok (signedMagnitude (!isInterestExpense t) economics.settlementCashAmount)
  else do
    let amount ← baseCashflowAmount t type
    .ok (signedCashflowAmount t rule type amount)

/-- `_historical_rebuild_cashflow_amount`: rows that current booking would reject keep their old
signing. -/
def historicalRebuildCashflowAmount : Except SettlementError ℚ :=
  if type.isRedemption then redemptionCashflowAmount t
  else if type = .dividend ∧ 0 < t.withholdingTaxAmount.getD 0 then
    match calculateSettlementCashMovement t with
    | .ok movement => .ok movement.signedAmount
    | .error (.settlementCash ..) => historicalSignedAmount t rule type
    | .error e => .error e
  else historicalSignedAmount t rule type

/-- `_SYNTHETIC_TRANSFER_CLASSIFICATION_SIGN`: whether the sign is positive. -/
def syntheticTransferSign (classification : String) : Option Bool :=
  match classification with
  | "POSITION_TRANSFER_IN" => some true
  | "POSITION_TRANSFER_OUT" => some false
  | "POSITION_CASH_IN_LIEU_OUT" => some false
  | _ => none

def syntheticTransferEconomics : Except SettlementError CashflowEconomics :=
  let classification := normalizeTransactionControlCode t.syntheticFlowClassification
  if rule.classification ≠ .transfer then
    .error (.valueError "Synthetic position flow requires TRANSFER cashflow classification")
  else if ¬ rule.isPositionFlow ∨ rule.isPortfolioFlow then
    .error (.valueError "Synthetic position flow must be position-level and non-portfolio")
  else
    match syntheticTransferSign classification, t.syntheticFlowAmountLocal with
    | none, _ =>
      .error (.valueError "Synthetic position flow classification is missing or unsupported")
    | some _, none => .error (.valueError "Synthetic position flow amount is required")
    | some positive, some amount =>
      if t.syntheticFlowCurrency.getD "" = "" then
        .error (.valueError "Synthetic position flow currency is required")
      else if amount = 0 ∨ decide (0 < amount) ≠ positive then
        .error (.valueError "Synthetic position flow amount sign does not match its classification")
      else .ok ⟨amount, t.syntheticFlowCurrency.getD "", .mvt⟩

def settledCashflowAmount (context : CalculationContext) : Except SettlementError ℚ :=
  if type.isRedemption then redemptionCashflowAmount t
  else if isOrdinarySettlement type then
    if context = .historicalRebuild then historicalRebuildCashflowAmount t rule type
    else SettlementCashMovement.signedAmount <$> calculateSettlementCashMovement t
  else signedCashflowAmount t rule type <$> baseCashflowAmount t type

def resolveCashflowEconomics (context : CalculationContext) :
    Except SettlementError CashflowEconomics :=
  if t.hasSyntheticFlow = some true then syntheticTransferEconomics t rule
  else do
    let amount ← settledCashflowAmount t rule type context
    .ok ⟨amount, t.currency, .net⟩

def resolveCashflowClassification (amount : ℚ) : CashflowClassification :=
  if type.isRedemption ∧ amount < 0 then .investmentOutflow else rule.classification

def resolveCashflowDate : ℤ :=
  match t.syntheticFlowEffectiveDate with
  | some date => date
  | none =>
    if isSettlementDated type ∨ rule.classification = .fxBuy ∨ rule.classification = .fxSell then
      utcDate (t.settlementDate.getD t.transactionDate)
    else utcDate t.transactionDate

def isDuplicateCorporateActionCashSettlement : Bool :=
  t.transactionType = .adjustment ∧ strip (t.originatingTransactionId.getD "") ≠ "" ∧
    normalizeTransactionControlCode t.originatingTransactionType ∈
      ["CASH_CONSIDERATION", "CASH_IN_LIEU"]

/-- `calculate_transaction_cashflow`, without its lineage. -/
def calculateTransactionCashflow (epoch : Option ℤ) (context : CalculationContext) :
    Except SettlementError CalculatedCashflow := do
  let type := processingType t
  let economics ← resolveCashflowEconomics t rule type context
  let _tradeFee ← resolveFeeAmount t
  let amount ← ofDecimal (cashflowLedger.normalize economics.amount "cashflows.amount")
  let duplicate := isDuplicateCorporateActionCashSettlement t
  .ok
    { transactionId := t.transactionId
      portfolioId := t.portfolioId
      securityId := t.securityId
      cashflowDate := resolveCashflowDate t rule type
      amount := amount
      currency := economics.currency
      classification := resolveCashflowClassification rule type amount
      timing := rule.timing
      calculationType := economics.calculationType
      isPositionFlow := if duplicate then false else rule.isPositionFlow
      isPortfolioFlow := if duplicate then false else rule.isPortfolioFlow
      economicEventId := t.economicEventId
      linkedTransactionGroupId := t.linkedTransactionGroupId
      epoch := epoch.getD 0 }

/-- The quantity by which the position reducer moves the cash position for an adjustment. -/
def cashQuantityDelta : ℚ :=
  cashPositionAmountDelta (positionTerms t) (processingType t)

end Cashflow

end LotusCore.Settlement
