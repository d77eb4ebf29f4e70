import LotusCore.CostBasis.Engine
import LotusCore.CostBasis.CashEconomics
import LotusCore.CostBasis.FxBaseline
import LotusCore.Transaction.Redemption

/-!
# Transaction cost calculation

`CostBasisCalculator`: the strategy of each transaction type, the checks before it, and the lineage
and evidence after it. A strategy writes the calculated fields of the transaction in place, uses
the lot engine, and either reports an error or raises.

* `CalculationState`: the transaction, the engine and the error collector.
* `CostStrategy.calculateCosts`: the strategies.
* `calculateTransactionCosts`: the calculation of one transaction.
-/

namespace LotusCore

open Exec

/-! ## Errors by transaction -/

/-- `CostCalculationErrorCollector`: the reasons recorded for each transaction. -/
abbrev ErrorCollector := List (String × String)

namespace ErrorCollector

/-- `add_error`: a reason already part of the recorded text is not added again. -/
def add (errors : ErrorCollector) (transactionId reason : String) : ErrorCollector :=
  match errors.lookup transactionId with
  | some existing =>
    if reason.toList <:+: existing.toList then errors
    else errors.map fun p =>
      if p.1 = transactionId then (p.1, p.2 ++ "; " ++ reason) else p
  | none => errors ++ [(transactionId, reason)]

/-- The transaction has a recorded error. -/
def hasErrorsFor (errors : ErrorCollector) (transactionId : String) : Bool :=
  (errors.lookup transactionId).isSome

end ErrorCollector

/-- What the calculation of one transaction reads and writes. -/
structure CalculationState where
  transaction : CostBasisTransaction
  engine : LotDispositionEngine
  errors : ErrorCollector := []

/-- A step of the calculation of one transaction. -/
abbrev Calc := EStateM Raised CalculationState

/-- The transaction as calculated so far. -/
def current : Calc CostBasisTransaction := do return (← get).transaction

/-- Write calculated fields. -/
def update (f : CostBasisTransaction → CostBasisTransaction) : Calc Unit :=
  modify fun s => { s with transaction := f s.transaction }

/-- Run a call of the engine. -/
def withEngine {α : Type} (m : EStateM Raised LotDispositionEngine α) : Calc α :=
  zoom CalculationState.engine (fun s e => { s with engine := e }) m

/-- Record an error for the transaction. -/
def report (reason : String) : Calc Unit :=
  modify fun s => { s with errors := s.errors.add s.transaction.transactionId reason }

/-- Record a violated invariant; `label` names the transaction type. -/
def reportInvariant (label message : String) : Calc Unit :=
  report (label ++ " invariant violation: " ++ message)

/-! ## Shared fields and checks -/

variable (t : CostBasisTransaction)

/-- `_cash_movement_amount`: the gross amount, or the quantity when that is zero. Taking the
absolute value rounds in the ambient context, as a negation does. -/
def cashMovementAmount : ℚ :=
  ambientContext.round
    |if t.grossTransactionAmount ≠ 0 then t.grossTransactionAmount else t.quantity|

/-- `_cash_outflow_book_cost`: fees come on top of a fee posting. -/
def cashOutflowBookCost : Except Raised ℚ :=
  if t.transactionType ≠ .fee then .ok (cashMovementAmount t)
  else transactionCostLedger.add (cashMovementAmount t) t.fees.totalFees "net_cost_local"

/-- The transaction has no cost. -/
def applyZeroCostFields : Calc Unit :=
  update fun t => { t with netCost := some 0, netCostLocal := some 0, grossCost := some 0 }

/-- An explicit zero result. -/
def applyZeroRealizedPnl : Calc Unit :=
  update fun t => { t with realizedGainLoss := some 0, realizedGainLossLocal := some 0 }

/-- No realized result is stated. -/
def applyNoRealizedPnl : Calc Unit :=
  update fun t => { t with realizedGainLoss := none, realizedGainLossLocal := none }

/-- A cost that is missing counts as nonzero. -/
def hasNonZeroCostFields : Bool :=
  t.netCost ≠ some 0 ∨ t.netCostLocal ≠ some 0

/-- A result that is missing counts as nonzero. -/
def hasNonZeroRealizedPnl : Bool :=
  t.realizedGainLoss ≠ some 0 ∨ t.realizedGainLossLocal ≠ some 0

variable (label : String)

/-- A posting that moves no quantity. -/
def validateZeroQuantityAndPrice : Calc Bool := do
  let t ← current
  if t.quantity ≠ 0 then
    reportInvariant label ("quantity_delta must be 0 for " ++ label ++ ".")
    pure false
  else if t.price ≠ 0 then
    reportInvariant label ("price must be 0 for " ++ label ++ ".")
    pure false
  else pure true

/-- A posting without cost and result. -/
def validateZeroCostAndRealizedPnl : Calc Unit := do
  let t ← current
  if hasNonZeroCostFields t then
    reportInvariant label "net_cost and net_cost_local must be 0."
  else if hasNonZeroRealizedPnl t then
    reportInvariant label ("realized capital/FX P&L must be explicit zero for " ++ label ++ ".")

/-! ## Purchases -/

/-- The policy under which accrued interest is not part of the book cost. -/
def isAccruedInterestExcludedFromBookCost : Bool :=
  normalizeTransactionControlCode t.calculationPolicyId ==
    "BUY_EXCLUDE_ACCRUED_INTEREST_FROM_BOOK_COST"

/-- The local book cost of a purchase: accrued interest belongs to it unless its policy excludes
it. -/
def buyBookCostLocal (withFees : ℚ) : Except Raised ℚ :=
  if isAccruedInterestExcludedFromBookCost t then .ok withFees
  else transactionCostLedger.add withFees (t.accruedInterest.getD 0) "net_cost_local"

/-- The costs of a purchase, each converted at the rate of the transaction. -/
def applyBuyCostFields : Calc Unit := do
  let t ← current
  let grossCost ← transactionCostLedger.multiply t.grossTransactionAmount t.fxRateOrOne
    "gross_cost"
  update fun t => { t with grossCost := some grossCost }
  let withFees ← transactionCostLedger.add t.grossTransactionAmount t.fees.totalFees
    "net_cost_local"
  update fun t => { t with netCostLocal := some withFees }
  let netCostLocal ← buyBookCostLocal t withFees
  update fun t => { t with netCostLocal := some netCostLocal }
  let netCost ← transactionCostLedger.multiply netCostLocal t.fxRateOrOne "net_cost"
  update fun t => { t with netCost := some netCost }
  applyZeroRealizedPnl

/-- The checks of a purchase; the first violated one is reported. -/
def validateBuyCostFields : Calc Bool := do
  let t ← current
  if t.quantity ≤ 0 then
    reportInvariant "BUY" "quantity_delta must be > 0."
    pure false
  else
    match t.grossCost, t.netCostLocal, t.netCost with
    | some grossCost, some netCostLocal, some netCost =>
      if grossCost < 0 then
        reportInvariant "BUY" "gross_cost must be >= 0."
        pure false
      else if netCostLocal < 0 then
        reportInvariant "BUY" "book_cost_local must be >= 0."
        pure false
      else if netCost < 0 then
        reportInvariant "BUY" "book_cost_base must be >= 0."
        pure false
      else if hasNonZeroRealizedPnl t then
        reportInvariant "BUY" "realized P&L must be explicit zero for BUY."
        pure false
      else pure true
    | _, _, _ =>
      reportInvariant "BUY" "gross_cost, book_cost_local, and book_cost_base must be calculated."
      pure false

/-- Open the lot; a refused lot is reported, not raised. -/
def recordBuyLot : Calc Unit := do
  let t ← current
  catching Raised.isValueError (withEngine (LotDispositionEngine.addBuyLot t)) fun e =>
    report e.message

/-- `BuyStrategy`: the lot is opened once the costs pass their checks. -/
def buyStrategy : Calc Unit := do
  applyBuyCostFields
  if ← validateBuyCostFields then recordBuyLot

/-! ## Disposals -/

/-- The gross amount less the fees. -/
def netSellProceedsLocal : Except Raised ℚ :=
  transactionCostLedger.subtract t.grossTransactionAmount t.fees.totalFees
    "net_sell_proceeds_local"

/-- The checks of a sale before any lot is read. -/
def validateSellQuantityAndProceeds (proceedsLocal proceedsBase : ℚ) : Calc Bool := do
  let t ← current
  if proceedsLocal < 0 then
    reportInvariant "SELL" "net_sell_proceeds_local must be >= 0."
    pure false
  else if proceedsBase < 0 then
    reportInvariant "SELL" "net_sell_proceeds_base must be >= 0."
    pure false
  else if t.quantity ≤ 0 then
    reportInvariant "SELL" "quantity_delta must be > 0."
    pure false
  else pure true

/-- What the book of the transaction has open. -/
def availableQuantity : Calc ℚ := do
  let s ← get
  return s.engine.books.availableQuantity s.transaction.bookKey

/-- No quantity is sold that is not there, whatever the policy. -/
def validateDisposalAvailability : Calc Bool := do
  let t ← current
  let available ← availableQuantity
  if t.quantity ≤ available then pure true
  else
    if normalizeTransactionControlCode t.calculationPolicyId = "SELL_ALLOW_OVERSOLD_POLICY" then
      reportInvariant label "oversold policy is configured but not supported in current engine."
    else
      reportInvariant label
        "sell quantity exceeds available holdings under strict oversell policy."
    pure false

/-- Consume the lots; a refused or empty disposal is reported. -/
def consumeDisposalCostBasis : Calc (Option LotDisposalResult) := do
  let t ← current
  let result ← withEngine (LotDispositionEngine.consume t)
  match result.errorReason with
  | some reason =>
    report reason
    pure none
  | none =>
    if result.consumedQuantity ≤ 0 then
      reportInvariant label "consumed_quantity must be > 0."
      pure none
    else if result.costBase < 0 ∨ result.costLocal < 0 then
      reportInvariant label "disposed cost basis must be non-negative."
      pure none
    else pure (some result)

/-- Proceeds less cost, and the cost that leaves the book, in each currency. -/
def applySellDisposalFields (proceedsLocal proceedsBase costBase costLocal : ℚ) : Calc Unit := do
  let gainLocal ← transactionCostLedger.subtract proceedsLocal costLocal
    "realized_gain_loss_local"
  update fun t => { t with realizedGainLossLocal := some gainLocal }
  let gain ← transactionCostLedger.subtract proceedsBase costBase "realized_gain_loss"
  update fun t => { t with realizedGainLoss := some gain }
  let netCost ← transactionCostLedger.normalize (-costBase) "net_cost"
  update fun t => { t with netCost := some netCost }
  let netCostLocal ← transactionCostLedger.normalize (-costLocal) "net_cost_local"
  update fun t => { t with netCostLocal := some netCostLocal }
  let grossCost ← transactionCostLedger.normalize (-costBase) "gross_cost"
  update fun t => { t with grossCost := some grossCost }

/-- A sale adds no cost to the book. -/
def validateSellDisposalFields : Calc Unit := do
  let t ← current
  match t.netCost, t.netCostLocal with
  | some netCost, some netCostLocal =>
    if ¬ (netCost ≤ 0 ∧ netCostLocal ≤ 0) then
      reportInvariant "SELL" "net_cost and net_cost_local must be <= 0 for SELL disposal."
  | _, _ =>
    reportInvariant "SELL" "net_cost and net_cost_local must be calculated for SELL disposal."

/-- `SellStrategy`: checks, disposal, realized result. -/
def sellStrategy : Calc Unit := do
  let t ← current
  let proceedsLocal ← netSellProceedsLocal t
  let proceedsBase ← transactionCostLedger.multiply proceedsLocal t.fxRateOrOne
    "net_sell_proceeds_base"
  if ← validateSellQuantityAndProceeds proceedsLocal proceedsBase then
    if ← validateDisposalAvailability "SELL" then
      match ← consumeDisposalCostBasis "SELL" with
      | none => pure ()
      | some result =>
        applySellDisposalFields proceedsLocal proceedsBase result.costBase result.costLocal
        validateSellDisposalFields

/-- The result of a redemption is all capital. -/
def applyRedemptionFields (costLocal costBase : ℚ) (economics : RedemptionEconomics) :
    Calc Unit := do
  let netCostLocal ← transactionCostLedger.normalize (-costLocal) "net_cost_local"
  update fun t => { t with netCostLocal := some netCostLocal }
  let netCost ← transactionCostLedger.normalize (-costBase) "net_cost"
  update fun t => { t with netCost := some netCost }
  let grossCost ← transactionCostLedger.normalize (-costBase) "gross_cost"
  update fun t => { t with
    grossCost := some grossCost
    realizedGainLossLocal := some economics.realizedCapitalPnlLocal
    realizedGainLoss := some economics.realizedCapitalPnlBase
    allocatedCostBasisLocal := some costLocal
    allocatedCostBasisBase := some costBase
    realizedCapitalPnlLocal := some economics.realizedCapitalPnlLocal
    realizedFxPnlLocal := some 0
    realizedTotalPnlLocal := some economics.realizedCapitalPnlLocal
    realizedCapitalPnlBase := some economics.realizedCapitalPnlBase
    realizedFxPnlBase := some 0
    realizedTotalPnlBase := some economics.realizedCapitalPnlBase }

/-- Redemption economics for the transaction as it stands; a calculation error is reported. -/
def redemptionEconomics (position costLocal costBase : ℚ) : Calc (Option RedemptionEconomics) := do
  let t ← current
  catching Raised.isRedemptionCalculation
    (do
      let economics ← calculateRedemptionEconomics (redemptionTerms t position costLocal costBase)
      pure (some economics))
    fun e => do
      report e.message
      pure none

/-- An ineligible redemption is reported. -/
def checkRedemptionEligible : Calc Bool := do
  let t ← current
  match assertRedemptionCommandEligible t with
  | .ok _ => pure true
  | .error e =>
    report e.message
    pure false

/-- `RedemptionStrategy`: the resolved quantity replaces the booked one before lots are
consumed. -/
def redemptionStrategy : Calc Unit := do
  if ← checkRedemptionEligible then
    let position ← availableQuantity
    match ← redemptionEconomics position 0 0 with
    | none => pure ()
    | some preview =>
      update fun t => { t with quantity := preview.redeemedQuantity }
      match ← consumeDisposalCostBasis (← current).transactionType.code with
      | none => pure ()
      | some result =>
        match ← redemptionEconomics position result.costLocal result.costBase with
        | none => pure ()
        | some economics => applyRedemptionFields result.costLocal result.costBase economics

/-! ## Cash and transfers -/

/-- `CashInflowStrategy`: the amount opens a lot of itself. -/
def cashInflowStrategy : Calc Unit := do
  let t ← current
  let amount := cashMovementAmount t
  update fun t => { t with grossCost := some amount, netCostLocal := some amount }
  let netCost ← transactionCostLedger.multiply amount t.fxRateOrOne "net_cost"
  update fun t => { t with netCost := some netCost }
  let t ← current
  withEngine (LotDispositionEngine.addBuyLot { t with quantity := amount })

/-- The signed amount as cost, without a realized result. -/
def applyCashCost (amountLocal : ℚ) : Calc Unit := do
  update fun t => { t with netCostLocal := some amountLocal }
  let netCost ← transactionCostLedger.multiply amountLocal (← current).fxRateOrOne "net_cost"
  update fun t => { t with netCost := some netCost, grossCost := some netCost }
  applyNoRealizedPnl

/-- `CashOutflowStrategy`: no lot is consumed. -/
def cashOutflowStrategy : Calc Unit := do
  let amount ← cashOutflowBookCost (← current)
  applyCashCost (ambientContext.round (-amount))

/-- `AdjustmentStrategy`: the direction is an inflow unless given. -/
def adjustmentStrategy : Calc Unit := do
  let t ← current
  let direction := normalizeTransactionControlCode
    (if t.movementDirection.getD "" = "" then some "INFLOW" else t.movementDirection)
  if direction ≠ "INFLOW" ∧ direction ≠ "OUTFLOW" then
    reportInvariant "ADJUSTMENT" "movement_direction must be INFLOW or OUTFLOW."
  else
    applyCashCost (if direction = "OUTFLOW" then ambientContext.round (-cashMovementAmount t)
      else cashMovementAmount t)

/-- The gross amount as cost, converted to base currency. -/
def applyGrossAmountAsCost : Calc Unit := do
  let t ← current
  update fun t => { t with
    grossCost := some t.grossTransactionAmount
    netCostLocal := some t.grossTransactionAmount }
  let netCost ← transactionCostLedger.multiply t.grossTransactionAmount t.fxRateOrOne "net_cost"
  update fun t => { t with netCost := some netCost }

/-- `SecurityInflowStrategy`: a lot at the booked cost. -/
def securityInflowStrategy : Calc Unit := do
  applyGrossAmountAsCost
  if 0 < (← current).quantity then recordBuyLot

/-- `SecurityOutflowStrategy`: lots are consumed without a realized result. -/
def securityOutflowStrategy : Calc Unit := do
  let result ← withEngine (LotDispositionEngine.consume (← current))
  match result.errorReason with
  | some reason => report reason
  | none =>
    if 0 < result.consumedQuantity then
      let netCost ← transactionCostLedger.normalize (-result.costBase) "net_cost"
      update fun t => { t with netCost := some netCost }
      let netCostLocal ← transactionCostLedger.normalize (-result.costLocal) "net_cost_local"
      update fun t => { t with netCostLocal := some netCostLocal, grossCost := some netCost }
      applyNoRealizedPnl

/-- `PartialTransferOutStrategy`: without a quantity only basis moves. -/
def partialTransferOutStrategy : Calc Unit := do
  let t ← current
  if 0 < t.quantity then securityOutflowStrategy
  else
    let basisOutBase ← transactionCostLedger.multiply t.grossTransactionAmount t.fxRateOrOne
      "net_cost"
    let result ← withEngine
      (LotDispositionEngine.transferBasisOut t basisOutBase t.grossTransactionAmount)
    match result.errorReason with
    | some reason => report reason
    | none =>
      update fun t => { t with
        netCostLocal := some (ambientContext.round (-t.grossTransactionAmount))
        netCost := some (-basisOutBase)
        grossCost := some (-basisOutBase) }
      applyNoRealizedPnl

/-- `IncomeStrategy`: no cost and no result. -/
def incomeStrategy : Calc Unit := do
  applyZeroCostFields
  applyNoRealizedPnl

/-- `DefaultStrategy`: cost without a lot. -/
def defaultStrategy : Calc Unit := applyGrossAmountAsCost

/-! ## Corporate-action cash and restatements -/

/-- The allocated basis leaves the book, and its result is stated in all fields. -/
def applyCorporateActionCashEconomics (e : CorporateActionCashEconomics) : Calc Unit :=
  update fun t => { t with
    allocatedCostBasisLocal := some e.allocatedCostBasisLocal
    allocatedCostBasisBase := some e.allocatedCostBasisBase
    netCostLocal := some (-e.allocatedCostBasisLocal)
    netCost := some (-e.allocatedCostBasisBase)
    grossCost := some (-e.allocatedCostBasisBase)
    realizedGainLossLocal := some e.realizedTotalPnlLocal
    realizedGainLoss := some e.realizedTotalPnlBase
    realizedCapitalPnlLocal := some e.realizedCapitalPnlLocal
    realizedFxPnlLocal := some e.realizedFxPnlLocal
    realizedTotalPnlLocal := some e.realizedTotalPnlLocal
    realizedCapitalPnlBase := some e.realizedCapitalPnlBase
    realizedFxPnlBase := some e.realizedFxPnlBase
    realizedTotalPnlBase := some e.realizedTotalPnlBase }

/-- The cash economics of the transaction; an error is reported under `label`. -/
def cashEconomics : Calc (Option CorporateActionCashEconomics) := do
  let t ← current
  if t.grossTransactionAmount ≤ 0 then
    reportInvariant label "gross cash proceeds must be greater than 0."
    pure none
  else
    catching Raised.isValueError
      (do
        let economics ← calculateTransactionCashEconomics t
        pure (some economics))
      fun e => do
        reportInvariant label e.message
        pure none

/-- `CashConsiderationStrategy`: the basis is allocated upstream, no lot is consumed. -/
def cashConsiderationStrategy : Calc Unit := do
  if ← validateZeroQuantityAndPrice "CASH_CONSIDERATION" then
    match ← cashEconomics "CASH_CONSIDERATION" with
    | none => pure ()
    | some economics => applyCorporateActionCashEconomics economics

/-- `CashInLieuStrategy`: the consumed basis is compared with the allocated one after the lots are
consumed. -/
def cashInLieuStrategy : Calc Unit := do
  if (← current).quantity ≤ 0 then
    reportInvariant "CASH_IN_LIEU" "quantity_delta must be greater than 0."
  else
    match ← cashEconomics "CASH_IN_LIEU" with
    | none => pure ()
    | some economics =>
      if ← validateDisposalAvailability "CASH_IN_LIEU" then
        match ← consumeDisposalCostBasis "CASH_IN_LIEU" with
        | none => pure ()
        | some result =>
          if result.consumedQuantity ≠ (← current).quantity then
            reportInvariant "CASH_IN_LIEU" "consumed quantity must equal fractional quantity."
          else if result.costLocal ≠ economics.allocatedCostBasisLocal ∨
              result.costBase ≠ economics.allocatedCostBasisBase then
            reportInvariant "CASH_IN_LIEU"
              "consumed local/base basis must equal allocated fractional basis."
          else applyCorporateActionCashEconomics economics

/-- The quantity, signed by the position effect of its type. -/
def signedQuantityDelta : Option ℚ :=
  match t.transactionType.definition with
  | some d =>
    match d.positionEffect with
    | .increase => some t.quantity
    | .decrease => some (ambientContext.round (-t.quantity))
    | _ => none
  | none => none

/-- `QuantityRestatementStrategy`: only the quantity of the lots changes. -/
def quantityRestatementStrategy : Calc Unit := do
  applyZeroCostFields
  applyZeroRealizedPnl
  let t ← current
  match signedQuantityDelta t with
  | none =>
    report "Quantity restatement invariant violation: transaction type has no direction."
  | some delta =>
    catching Raised.isLotRestatement
      (do
        let restatement ← withEngine (LotDispositionEngine.restate t delta)
        update fun t => { t with lotRestatement := some restatement })
      fun e => report ("Quantity restatement invariant violation: " ++ e.message)

/-! ## Income and foreign exchange -/

/-- The checks of an income posting; `amountName` is its gross amount. -/
def incomePosting (label amountName : String) : Calc Unit := do
  if ← validateZeroQuantityAndPrice label then
    if (← current).grossTransactionAmount ≤ 0 then
      reportInvariant label amountName
    else validateZeroCostAndRealizedPnl label

/-- `DividendStrategy`. -/
def dividendStrategy : Calc Unit := do
  applyZeroCostFields
  applyZeroRealizedPnl
  incomePosting "DIVIDEND" "gross_dividend_local must be > 0 for DIVIDEND."

/-- `_resolve_interest_direction`, as a check. -/
def isInterestDirection : Bool :=
  let direction := if t.interestDirection.getD "" = "" then "INCOME"
    else normalizeTransactionControlCode t.interestDirection
  direction = "INCOME" ∨ direction = "EXPENSE"

/-- `InterestStrategy`: income or expense. -/
def interestStrategy : Calc Unit := do
  applyZeroCostFields
  applyZeroRealizedPnl
  if isInterestDirection (← current) then
    incomePosting "INTEREST" "gross_interest_local must be > 0 for INTEREST baseline."
  else
    reportInvariant "INTEREST" "interest_direction must be INCOME or EXPENSE when provided."

/-- `FxBaselineStrategy`: canonical validation, then the update under the mode of the component. -/
def fxBaselineStrategy : Calc Unit := do
  let t ← current
  match validateCanonicalFxTransaction t with
  | some reason => report reason
  | none =>
    let mode := normalizeTransactionControlCode
      (if t.fxRealizedPnlMode.getD "" = "" then some "NONE" else t.fxRealizedPnlMode)
    if mode ≠ "NONE" ∧ mode ≠ "UPSTREAM_PROVIDED" then
      report ("FX realized P&L mode '" ++ mode ++
        "' is not supported by baseline FX cost processing; " ++
        "supported modes are NONE and UPSTREAM_PROVIDED.")
    else update (fxBaselineUpdate mode)

/-! ## The calculator -/

/-- The strategies of `CostBasisCalculator`. -/
inductive CostStrategy
  | buy | sell | fxBaseline | interest | dividend | securityInflow | securityOutflow
  | partialTransferOut | cashConsideration | cashInLieu | redemption | quantityRestatement
  | default | income | adjustment | cashInflow | cashOutflow
  deriving Repr, DecidableEq

/-- `calculate_costs` of a strategy. -/
def CostStrategy.calculateCosts : CostStrategy → Calc Unit
  | .buy => buyStrategy
  | .sell => sellStrategy
  | .fxBaseline => fxBaselineStrategy
  | .interest => interestStrategy
  | .dividend => dividendStrategy
  | .securityInflow => securityInflowStrategy
  | .securityOutflow => securityOutflowStrategy
  | .partialTransferOut => partialTransferOutStrategy
  | .cashConsideration => cashConsiderationStrategy
  | .cashInLieu => cashInLieuStrategy
  | .redemption => redemptionStrategy
  | .quantityRestatement => quantityRestatementStrategy
  | .default => defaultStrategy
  | .income => incomeStrategy
  | .adjustment => adjustmentStrategy
  | .cashInflow => cashInflowStrategy
  | .cashOutflow => cashOutflowStrategy

/-- `CostBasisCalculator._strategies`. -/
def registeredStrategy : TransactionType → Option CostStrategy
  | .buy => some .buy
  | .sell => some .sell
  | .fxSpot | .fxForward | .fxSwap => some .fxBaseline
  | .interest => some .interest
  | .dividend => some .dividend
  | .transferIn | .mergerIn | .exchangeIn | .replacementIn | .spinIn | .demergerIn
  | .rightsAllocate | .rightsShareDelivery => some .securityInflow
  | .transferOut | .mergerOut | .exchangeOut | .replacementOut | .rightsExpire | .rightsSell
  | .rightsSubscribe | .rightsOversubscribe => some .securityOutflow
  | .spinOff | .demergerOut => some .partialTransferOut
  | .cashConsideration => some .cashConsideration
  | .cashInLieu => some .cashInLieu
  | .maturityRedemption | .callRedemption | .partialRedemption => some .redemption
  | .split | .reverseSplit | .consolidation | .bonusIssue | .stockDividend =>
    some .quantityRestatement
  | .rightsAnnounce | .rightsAdjustment => some .default
  | .rightsRefund => some .income
  | .adjustment => some .adjustment
  | _ => none

/-- The strategies of postings to a cash instrument. -/
def cashStrategy : TransactionType → Option CostStrategy
  | .deposit => some .cashInflow
  | .sell | .withdrawal | .fee | .tax | .transferOut | .mergerOut | .exchangeOut
  | .replacementOut => some .cashOutflow
  | _ => none

/-- The strategy `_resolve_strategy` finds for a transaction that may be booked. -/
def strategyFor : Option CostStrategy :=
  if t.isCash then (cashStrategy t.transactionType).or (registeredStrategy t.transactionType)
  else registeredStrategy t.transactionType

/-- The strategy of a transaction, or the reason it has none. -/
def resolveStrategy : Calc (Option CostStrategy) := do
  let t ← current
  if !t.transactionType.isProductionBooking then
    let status := match t.transactionType.definition with
      | some d => d.calculationSupportStatus.value
      | none => "unknown"
    report ("CostBasisTransaction type '" ++ t.transactionType.code ++
      "' is not allowed for production booking (registry_status=" ++ status ++ ").")
    pure none
  else
    match strategyFor t with
    | some strategy => pure (some strategy)
    | none =>
      report ("No cost calculation strategy is registered for '" ++ t.transactionType.code ++
        "'.")
      pure none

/-- Normalize the currencies and require a rate where they differ. -/
def validateTransactionCurrencyContext : Calc Bool := do
  update fun t => { t with
    tradeCurrency := normalizeTransactionControlCode (some t.tradeCurrency)
    portfolioBaseCurrency := normalizeTransactionControlCode (some t.portfolioBaseCurrency) }
  let t ← current
  if t.transactionFxRate.any (· ≤ 0) then
    report "Missing/invalid FX rate for transaction."
    pure false
  else if t.transactionType = .fxSpot ∨ t.transactionType = .fxForward ∨
      t.transactionType = .fxSwap then pure true
  else if t.tradeCurrency = t.portfolioBaseCurrency then
    update fun t => { t with transactionFxRate := some (t.transactionFxRate.getD 1) }
    pure true
  else if t.transactionFxRate.isSome then pure true
  else
    report ("Missing/invalid FX rate for cross-currency transaction from " ++ t.tradeCurrency ++
      " to " ++ t.portfolioBaseCurrency ++ ".")
    pure false

/-- `resolve_effective_processing_transaction_type`: the component of an FX deal. -/
def effectiveProcessingType : TransactionType :=
  match normalizeTransactionControlCode t.componentType with
  | "FX_CASH_SETTLEMENT_BUY" => .fxCashSettlementBuy
  | "FX_CASH_SETTLEMENT_SELL" => .fxCashSettlementSell
  | "FX_CONTRACT_OPEN" => .unregistered "FX_CONTRACT_OPEN"
  | "FX_CONTRACT_CLOSE" => .unregistered "FX_CONTRACT_CLOSE"
  | _ => t.transactionType

/-- `assert_cash_account_required_instrument`, as the reported error. -/
def cashAccountRequiredError : Option String :=
  let type := effectiveProcessingType t
  match type.definition with
  | some d =>
    if d.settlementBehavior ≠ .cashAccountRequired then none
    else if normalizeTransactionControlCode t.productType = "" ∧
        normalizeTransactionControlCode t.assetClass = "" then
      some ("CASH_ACCOUNT_001_INSTRUMENT_AUTHORITY_UNAVAILABLE: " ++ type.code ++
        " requires authoritative cash instrument metadata; " ++
        "instrument classification is unavailable.")
    else if !t.isCash then
      some ("CASH_ACCOUNT_002_NON_CASH_INSTRUMENT: " ++ type.code ++
        " must be represented as a cash instrument posting.")
    else none
  | none => none

/-- The components, under a field path. -/
def Fees.decimals (f : Fees) (path : String) : List (String × ℚ) :=
  [(path ++ ".stamp_duty", f.stampDuty), (path ++ ".exchange_fee", f.exchangeFee),
    (path ++ ".gst", f.gst), (path ++ ".brokerage", f.brokerage),
    (path ++ ".other_fees", f.otherFees)]

/-- The quantities of a restatement. -/
def restatementDecimals (r : Option LotRestatement) : List (String × ℚ) :=
  match r with
  | some r => [("lot_restatement.quantity_before", r.quantityBefore),
      ("lot_restatement.quantity_after", r.quantityAfter)]
  | none => []

/-- A field with its name, if it is set. -/
def decimalField (name : String) (value : Option ℚ) : List (String × ℚ) :=
  (value.map fun x => (name, x)).toList

/-- The decimals of `_transaction_cost_input`. -/
def transactionCostInput : List (String × ℚ) :=
  [("quantity", t.quantity), ("gross_transaction_amount", t.grossTransactionAmount)] ++
    t.fees.decimals "fees" ++ decimalField "accrued_interest" t.accruedInterest ++
    decimalField "transaction_fx_rate" t.transactionFxRate ++
    decimalField "source_lot_order_quantity" t.sourceLotOrderQuantity ++
    decimalField "source_lot_original_quantity" t.sourceLotOriginalQuantity ++
    restatementDecimals t.lotRestatement ++ [("price", t.price)] ++
    decimalField "old_factor" t.oldFactor ++ decimalField "new_factor" t.newFactor ++
    decimalField "principal_proceeds_local" t.principalProceedsLocal ++
    decimalField "accrued_interest_proceeds_local" t.accruedInterestProceedsLocal ++
    decimalField "embedded_fee_amount_local" t.embeddedFeeAmountLocal ++
    decimalField "embedded_tax_amount_local" t.embeddedTaxAmountLocal ++ t.otherDecimals

/-- The decimals of `transaction_cost_output_payload`. -/
def transactionCostOutput : List (String × ℚ) :=
  decimalField "allocated_cost_basis_base" t.allocatedCostBasisBase ++
    decimalField "allocated_cost_basis_local" t.allocatedCostBasisLocal ++
    t.fees.decimals "fee_components" ++ decimalField "gross_cost" t.grossCost ++
    restatementDecimals t.lotRestatement ++ decimalField "net_cost" t.netCost ++
    decimalField "net_cost_local" t.netCostLocal ++
    decimalField "realized_capital_pnl_base" t.realizedCapitalPnlBase ++
    decimalField "realized_capital_pnl_local" t.realizedCapitalPnlLocal ++
    decimalField "realized_fx_pnl_base" t.realizedFxPnlBase ++
    decimalField "realized_fx_pnl_local" t.realizedFxPnlLocal ++
    decimalField "realized_gain_loss" t.realizedGainLoss ++
    decimalField "realized_gain_loss_local" t.realizedGainLossLocal ++
    decimalField "realized_total_pnl_base" t.realizedTotalPnlBase ++
    decimalField "realized_total_pnl_local" t.realizedTotalPnlLocal ++
    decimalField "transaction_fx_rate" t.transactionFxRate

/-- The strategy, then the lineage, then the publication of the staged evidence. -/
def runStrategy (strategy : CostStrategy) (lineageInput : List (String × ℚ)) : Calc Unit := do
  strategy.calculateCosts
  let s ← get
  let id := s.transaction.transactionId
  if s.errors.hasErrorsFor id then pure ()
  else
    let _ ← canonicalPayload lineageInput
    let _ ← canonicalPayload (transactionCostOutput s.transaction)
    withEngine (LotDispositionEngine.commitDisposalRecord id)

/-- `calculate_transaction_costs`: the staged evidence is discarded before and after, also when the
strategy raises. -/
def calculateTransactionCosts : Calc Unit := do
  if ← validateTransactionCurrencyContext then
    let t ← current
    if t.transactionType.definition.isNone then
      report ("Unknown transaction type '" ++ t.transactionType.code ++ "'.")
    else
      match cashAccountRequiredError t with
      | some reason => report reason
      | none =>
        match ← resolveStrategy with
        | none => pure ()
        | some strategy =>
          withEngine (LotDispositionEngine.discardPendingDisposal t.transactionId)
          ensure (runStrategy strategy (transactionCostInput t))
            (withEngine (LotDispositionEngine.discardPendingDisposal t.transactionId))

end LotusCore
