import LotusCore.Numeric.Policy
import LotusCore.Transaction.Types
import Mathlib.Data.Prod.Lex
import Mathlib.Data.List.Sort

/-!
# Cost-basis transactions

The transaction the cost calculation reads and completes, the exact restatement of a lot book, and
the canonical order in which transactions are processed.

* `CostBasisTransaction`: the inputs and the calculated fields.
* `LotRestatement`: a before/after pair of book quantities, applied without rounding.
* `transactionOrderKey`, `sortTransactions`: the processing order.
-/

namespace LotusCore

open Decimal

/-! ## Quantity restatements -/

/-- `_require_exact_persistable_quantity`: the quantity column holds the value. -/
def requireExactPersistableQuantity (value : ℚ) (fieldName : String) : Except Raised ℚ :=
  if Storable value then .ok value
  else .error (.lotRestatement (fieldName ++ " exceeds governed quantity precision"))

def requireNonNegativePersistableQuantity (value : ℚ) (fieldName : String) : Except Raised ℚ :=
  if value < 0 then .error (.lotRestatement (fieldName ++ " must be non-negative"))
  else requireExactPersistableQuantity value fieldName

def requirePositivePersistableQuantity (value : ℚ) (fieldName : String) : Except Raised ℚ := do
  let amount ← requireNonNegativePersistableQuantity value fieldName
  if amount = 0 then .error (.lotRestatement (fieldName ++ " must be positive"))
  else .ok amount

/-- One exact before/after book ratio. -/
structure LotRestatement where
  quantityBefore : ℚ
  quantityAfter : ℚ
  before_pos : 0 < quantityBefore
  after_pos : 0 < quantityAfter
  before_storable : Storable quantityBefore
  after_storable : Storable quantityAfter
  changes : quantityBefore ≠ quantityAfter
  deriving DecidableEq

theorem requirePositivePersistableQuantity_eq_ok {x y : ℚ} {f : String} :
    requirePositivePersistableQuantity x f = .ok y ↔ y = x ∧ 0 < x ∧ Storable x := by
  unfold requirePositivePersistableQuantity requireNonNegativePersistableQuantity
    requireExactPersistableQuantity
  by_cases h1 : x < 0
  · simp [h1, h1.le, bind, Except.bind]
  by_cases h2 : Storable x
  · by_cases h3 : x = 0
    · simp [h3, storable_zero, bind, Except.bind]
    · have hpos : 0 < x := lt_of_le_of_ne (not_lt.mp h1) (Ne.symm h3)
      simp [h1, h2, h3, hpos, bind, Except.bind, eq_comm]
  · simp [h1, h2, bind, Except.bind]

namespace LotRestatement

/-- The checks of `LotRestatement.__post_init__`. -/
def new (quantityBefore quantityAfter : ℚ) : Except Raised LotRestatement :=
  match hb : requirePositivePersistableQuantity quantityBefore "quantity_before" with
  | .error e => .error e
  | .ok _ =>
    match ha : requirePositivePersistableQuantity quantityAfter "quantity_after" with
    | .error e => .error e
    | .ok _ =>
      if hne : quantityBefore = quantityAfter then
        .error (.lotRestatement "lot restatement must change quantity")
      else
        have hb' := requirePositivePersistableQuantity_eq_ok.mp hb
        have ha' := requirePositivePersistableQuantity_eq_ok.mp ha
        .ok ⟨quantityBefore, quantityAfter, hb'.2.1, ha'.2.1, hb'.2.2, ha'.2.2, hne⟩

/-- `from_signed_delta`: the sum is taken in the ambient context. -/
def fromSignedDelta (quantityBefore signedQuantityDelta : ℚ) : Except Raised LotRestatement :=
  new quantityBefore (ambientContext.round (quantityBefore + signedQuantityDelta))

/-- Scale one quantity and refuse a result the column does not hold. -/
def apply (r : LotRestatement) (quantity : ℚ) (fieldName : String) : Except Raised ℚ := do
  let amount ← requireNonNegativePersistableQuantity quantity fieldName
  let scaled := amount * r.quantityAfter / r.quantityBefore
  if OnGrid 10 scaled then requireExactPersistableQuantity scaled fieldName
  else .error (.lotRestatement
    (fieldName ++ " cannot be restated exactly at 10 decimal places"))

theorem apply_eq_ok {r : LotRestatement} {q z : ℚ} {f : String} (h : r.apply q f = .ok z) :
    z = q * r.quantityAfter / r.quantityBefore ∧ Storable z := by
  unfold apply requireNonNegativePersistableQuantity requireExactPersistableQuantity at h
  obtain ⟨a, ha, h⟩ := Exec.except_bind_eq_ok.mp h
  split_ifs at ha
  cases ha
  dsimp only at h
  split_ifs at h with h1 h2
  cases h
  exact ⟨rfl, h2⟩

end LotRestatement

/-! ## Transactions -/

theorem zeroFees_nonneg : (0 : ℚ) ≤ 0 ∧ (0 : ℚ) ≤ 0 ∧ (0 : ℚ) ≤ 0 ∧ (0 : ℚ) ≤ 0 ∧ (0 : ℚ) ≤ 0 := by
  decide

/-- The fee components of a transaction; none is negative. -/
structure Fees where
  stampDuty : ℚ := 0
  exchangeFee : ℚ := 0
  gst : ℚ := 0
  brokerage : ℚ := 0
  otherFees : ℚ := 0
  nonneg : 0 ≤ stampDuty ∧ 0 ≤ exchangeFee ∧ 0 ≤ gst ∧ 0 ≤ brokerage ∧ 0 ≤ otherFees :=
    by exact zeroFees_nonneg
  deriving DecidableEq

/-- `total_fees`: the components added one by one in the ambient context. -/
def Fees.totalFees (f : Fees) : ℚ :=
  let add := fun a b => ambientContext.round (a + b)
  add (add (add (add f.stampDuty f.exchangeFee) f.gst) f.brokerage) f.otherFees

/-- `_total_fee_component_amount`: the components, added one by one in the ambient context. -/
def totalFeeComponentAmount (components : List (String × Option ℚ)) : Except Raised ℚ :=
  components.foldlM (fun total c =>
    if c.2.getD 0 < 0 then
      .error (.valueError (c.1 ++ " must be greater than or equal to zero."))
    else .ok (ambientContext.round (total + c.2.getD 0))) 0

/-- The inputs of an FX component that its canonical form adds: `FxTransactionSource` and its
optional extensions. -/
structure FxTerms where
  componentId : Option String := none
  currency : String
  pairBaseCurrency : Option String := none
  pairQuoteCurrency : Option String := none
  fxRateQuoteConvention : Option String := none
  buyCurrency : Option String := none
  sellCurrency : Option String := none
  buyAmount : Option ℚ := none
  sellAmount : Option ℚ := none
  contractRate : Option ℚ := none
  tradeFee : Option ℚ := none
  withholdingTaxAmount : Option ℚ := none
  economicEventId : Option String := none
  linkedTransactionGroupId : Option String := none
  calculationPolicyVersion : Option String := none
  fxCashLegRole : Option String := none
  linkedFxCashLegId : Option String := none
  fxContractId : Option String := none
  swapEventId : Option String := none
  nearLegGroupId : Option String := none
  farLegGroupId : Option String := none
  spotExposureModel : Option String := none
  deriving DecidableEq

/-- The inputs and calculated fields of one transaction. Instants are microseconds in UTC. -/
structure CostBasisTransaction where
  transactionId : String
  portfolioId : String
  instrumentId : String
  securityId : String
  transactionType : TransactionType
  transactionDate : ℤ
  settlementDate : Option ℤ := none
  childSequenceHint : Option ℤ := none
  targetInstrumentId : Option String := none
  quantity : ℚ
  grossTransactionAmount : ℚ
  fees : Fees := {}
  accruedInterest : Option ℚ := some 0
  tradeCurrency : String
  portfolioBaseCurrency : String
  transactionFxRate : Option ℚ := none
  netCost : Option ℚ := none
  grossCost : Option ℚ := none
  realizedGainLoss : Option ℚ := none
  netCostLocal : Option ℚ := none
  realizedGainLossLocal : Option ℚ := none
  sourceLotOrderQuantity : Option ℚ := none
  sourceLotOriginalQuantity : Option ℚ := none
  lotRestatement : Option LotRestatement := none
  errorReason : Option String := none
  tenantId : String := ""
  epoch : Option ℤ := none
  price : ℚ := 0
  productType : Option String := none
  assetClass : Option String := none
  componentType : Option String := none
  calculationPolicyId : Option String := none
  interestDirection : Option String := none
  movementDirection : Option String := none
  targetTransactionReference : Option String := none
  oldFactor : Option ℚ := none
  newFactor : Option ℚ := none
  principalProceedsLocal : Option ℚ := none
  accruedInterestProceedsLocal : Option ℚ := none
  embeddedFeeAmountLocal : Option ℚ := none
  embeddedTaxAmountLocal : Option ℚ := none
  allocatedCostBasisLocal : Option ℚ := none
  allocatedCostBasisBase : Option ℚ := none
  realizedCapitalPnlLocal : Option ℚ := none
  realizedFxPnlLocal : Option ℚ := none
  realizedTotalPnlLocal : Option ℚ := none
  realizedCapitalPnlBase : Option ℚ := none
  realizedFxPnlBase : Option ℚ := none
  realizedTotalPnlBase : Option ℚ := none
  fxRealizedPnlMode : Option String := none
  /-- The terms of an FX component; none if the transaction lacks one of the required ones. -/
  fx : Option FxTerms := none
  /-- The decimal fields that only enter the calculation lineage. -/
  otherDecimals : List (String × ℚ) := []
  deriving DecidableEq

namespace CostBasisTransaction

variable (t : CostBasisTransaction)

def bookKey : String × String := (t.portfolioId, t.instrumentId)

/-- `_is_cash_instrument`. -/
def isCash : Bool := isCashInstrument t.productType t.assetClass

/-- `_transaction_fx_rate_or_one`. -/
def fxRateOrOne : ℚ :=
  match t.transactionFxRate with
  | some r => if r = 0 then 1 else r
  | none => 1

/-! ## Processing order -/

/-- `_cash_dependency_rank`: cash inflows before the rest, outflows after. -/
def cashDependencyRank : ℤ :=
  let component := normalizeTransactionControlCode t.componentType
  if !t.isCash then 1
  else if component == "FX_CASH_SETTLEMENT_BUY" || t.transactionType.isCashInflow then 0
  else if component == "FX_CASH_SETTLEMENT_SELL" || t.transactionType.isCashOutflow then 2
  else 1

/-- The quantity that orders a transaction: the booked one for a restored lot. -/
def orderQuantity : ℚ := t.sourceLotOrderQuantity.getD t.quantity

def targetSequence : ℤ := t.childSequenceHint.getD defaultChildSequence

end CostBasisTransaction

/-- Date, corporate-action rank, cash rank, child sequence, target instrument, descending quantity
and identity. -/
abbrev TransactionOrderKey := ℤ ×ₗ ℤ ×ₗ ℤ ×ₗ ℤ ×ₗ String ×ₗ ℚ ×ₗ String

def transactionOrderKey (t : CostBasisTransaction) : TransactionOrderKey :=
  toLex (t.transactionDate, toLex (t.transactionType.dependencyRank,
    toLex (t.cashDependencyRank, toLex (t.targetSequence,
      toLex (t.targetInstrumentId.getD "",
        toLex (ambientContext.round (-t.orderQuantity), t.transactionId))))))

/-- `CostTransactionSorter.sort_transactions`: a stable sort by the order key. -/
def sortTransactions (existing new : List CostBasisTransaction) : List CostBasisTransaction :=
  (existing ++ new).insertionSort fun a b => transactionOrderKey a ≤ transactionOrderKey b

end LotusCore
