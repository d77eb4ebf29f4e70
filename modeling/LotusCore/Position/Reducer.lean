import LotusCore.CostBasis.Calculator

/-!
# Position balances

A position balance is a quantity with its cost in base and in local currency. A booked transaction
moves it by the rule of its type; the result is rounded to the position ledger, and a flat position
has no cost.

* `PositionTransaction`: what the position history reads of a booked transaction.
* `positionUpdateHandler`: the rule of a type.
* `calculateNextPositionState`: one step.
-/

namespace LotusCore

open Decimal

structure PositionBalanceState where
  quantity : ℚ := 0
  costBasis : ℚ := 0
  costBasisLocal : ℚ := 0
  deriving DecidableEq

/-! ## Transactions -/

/-- The evidence of a calculation: its algorithm and the digests of what went in and came out. -/
structure CalculationLineage where
  algorithmId : String
  algorithmVersion : ℕ
  intermediatePrecision : ℕ
  inputContentHash : String
  calculationContentHash : String
  outputContentHash : String
  numericOutputPolicy : Option String
  deriving DecidableEq, Repr

/-- `BookedTransaction`, as far as the position history reads it; `terms` are the fields it shares
with the cost calculation, its date apart. -/
structure PositionTransaction where
  terms : CostBasisTransaction
  transactionDate : Timestamp
  createdAt : Option Timestamp := none
  calculationLineage : Option CalculationLineage := none
  deriving DecidableEq

/-! ## Rules -/

def isCashPositionInflow : TransactionType → Bool
  | .deposit | .fxCashSettlementBuy => true
  | _ => false

/-- The cash movements that take from it. -/
def isCashPositionOutflow : TransactionType → Bool
  | .withdrawal | .fee | .tax | .fxCashSettlementSell => true
  | _ => false

/-- `POSITION_TRANSFER_INFLOW_TRANSACTION_TYPES`. -/
def isPositionTransferInflow : TransactionType → Bool
  | .transferIn | .mergerIn | .exchangeIn | .replacementIn | .spinIn | .demergerIn
  | .rightsAllocate | .rightsShareDelivery => true
  | _ => false

/-- `POSITION_TRANSFER_TRANSACTION_TYPES`. -/
def isPositionTransfer : TransactionType → Bool
  | .transferIn | .transferOut | .mergerIn | .mergerOut | .exchangeIn | .exchangeOut
  | .replacementIn | .replacementOut | .spinIn | .demergerIn | .rightsAllocate
  | .rightsShareDelivery | .rightsSubscribe | .rightsOversubscribe | .rightsSell
  | .rightsExpire => true
  | _ => false

section Rules

variable (state : PositionBalanceState) (t : CostBasisTransaction) (type : TransactionType)

/-- A result inside the arithmetic context of the ledger. -/
def positionRound (x : ℚ) : ℚ := positionHistoryLedger.round x

/-- `_position_state`: the values, rounded to the ledger. -/
def positionState (quantity costBasis costBasisLocal : ℚ) :
    Except Raised PositionBalanceState := do
  let quantity ← positionHistoryLedger.normalize quantity "position_history.quantity"
  let costBasis ← positionHistoryLedger.normalize costBasis "position_history.cost_basis"
  let costBasisLocal ← positionHistoryLedger.normalize costBasisLocal
    "position_history.cost_basis_local"
  .ok ⟨quantity, costBasis, costBasisLocal⟩

def costBasisWithOptionalNetCost (current : ℚ) (netCost : Option ℚ) : ℚ :=
  match netCost with
  | some cost => positionRound (current + cost)
  | none => current

def buyPositionState : Except Raised PositionBalanceState :=
  positionState (positionRound (state.quantity + t.quantity))
    (costBasisWithOptionalNetCost state.costBasis t.netCost)
    (costBasisWithOptionalNetCost state.costBasisLocal t.netCostLocal)

def sellPositionState : Except Raised PositionBalanceState :=
  positionState (positionRound (state.quantity - t.quantity))
    (costBasisWithOptionalNetCost state.costBasis t.netCost)
    (costBasisWithOptionalNetCost state.costBasisLocal t.netCostLocal)

/-- The check of one amount: its sign must agree with the movement. The text leaves out the
amount. -/
def assertCashAmount (fieldName : String) (amount : Option ℚ) : Except Raised Unit :=
  match amount with
  | none => .ok ()
  | some amount =>
    if isCashPositionInflow type ∧ amount < 0 then
      .error (.valueError (type.code ++ " " ++ fieldName ++ " must be non-negative"))
    else if isCashPositionInflow type = false ∧ 0 < amount then
      .error (.valueError (type.code ++ " " ++ fieldName ++ " must be non-positive"))
    else .ok ()

def assertCashPositionEconomics : Except Raised Unit := do
  if isCashPositionInflow type ∨ isCashPositionOutflow type then
    assertCashAmount type "net_cost" t.netCost
    assertCashAmount type "net_cost_local" t.netCostLocal
  else .ok ()

def cashPositionAmountDelta : ℚ :=
  let amount := if t.grossTransactionAmount ≠ 0 then t.grossTransactionAmount else t.quantity
  let magnitude :=
    match type, t.netCostLocal with
    | .fee, some cost => if cost ≠ 0 then positionRound |cost| else positionRound |amount|
    | _, _ => positionRound |amount|
  if type = .adjustment then
    let direction := match t.movementDirection with
      | none => "INFLOW"
      | some text => if text = "" then "INFLOW" else text
    if normalizeTransactionControlCode (some direction) = "OUTFLOW" then positionRound (-magnitude)
    else magnitude
  else if isCashPositionInflow type then magnitude
  else positionRound (-magnitude)

/-- The cost a cash movement carries: its own, or the quantity where that is missing or zero. The
zero stands in for every type that comes here. -/
def cashCostDelta (netCost : Option ℚ) (quantityDelta : ℚ) : ℚ :=
  match netCost with
  | some cost => if cost = 0 then quantityDelta else cost
  | none => quantityDelta

/-- `_cash_delta_position_state`, with `cash_position_deltas`. -/
def cashDeltaPositionState : Except Raised PositionBalanceState := do
  assertCashPositionEconomics t type
  let quantityDelta := cashPositionAmountDelta t type
  positionState (positionRound (state.quantity + quantityDelta))
    (positionRound (state.costBasis + cashCostDelta t.netCost quantityDelta))
    (positionRound (state.costBasisLocal + cashCostDelta t.netCostLocal quantityDelta))

def transferCostBasis (current : ℚ) (netCost : Option ℚ) (gross : ℚ) (inflow : Bool) : ℚ :=
  match netCost with
  | some cost => positionRound (current + cost)
  | none => if inflow then positionRound (current + gross) else positionRound (current - gross)

def transferPositionState : Except Raised PositionBalanceState :=
  if t.quantity ≤ 0 then .ok state
  else
    let inflow := isPositionTransferInflow type
    let signed := positionRound (if inflow then t.quantity else -t.quantity)
    positionState (positionRound (state.quantity + signed))
      (transferCostBasis state.costBasis t.netCost t.grossTransactionAmount inflow)
      (transferCostBasis state.costBasisLocal t.netCostLocal t.grossTransactionAmount inflow)

def quantityDeltaPositionState (delta : ℚ) : Except Raised PositionBalanceState :=
  positionState (positionRound (state.quantity + delta)) state.costBasis state.costBasisLocal

def sameInstrumentActionState : Except Raised PositionBalanceState :=
  quantityDeltaPositionState state (positionRound
    (if type = .reverseSplit ∨ type = .consolidation then -t.quantity else t.quantity))

/-- `_spin_off_position_state`: a source leg leaves like a transfer out. -/
def spinOffPositionState : Except Raised PositionBalanceState :=
  let delta := if 0 < t.quantity then positionRound (-t.quantity) else 0
  positionState (positionRound (state.quantity + delta))
    (transferCostBasis state.costBasis t.netCost t.grossTransactionAmount false)
    (transferCostBasis state.costBasisLocal t.netCostLocal t.grossTransactionAmount false)

/-- `_position_update_handler`, applied; a type without a handler has no result. -/
def positionUpdateHandler : Option (Except Raised PositionBalanceState) :=
  if type = .buy then some (buyPositionState state t)
  else if type = .sell ∨ type = .cashInLieu ∨ type.isRedemption then
    some (sellPositionState state t)
  else if isCashPositionInflow type ∨ isCashPositionOutflow type ∨ type = .adjustment then
    some (cashDeltaPositionState state t type)
  else if isPositionTransfer type then some (transferPositionState state t type)
  else if type.isSameInstrumentCorporateAction then some (sameInstrumentActionState state t type)
  else if type = .spinOff ∨ type = .demergerOut then some (spinOffPositionState state t)
  else if type = .unregistered "FX_CONTRACT_OPEN" then some (quantityDeltaPositionState state 1)
  else if type = .unregistered "FX_CONTRACT_CLOSE" then
    some (quantityDeltaPositionState state (-1))
  else none

end Rules

def zeroedCostBasisWhenFlat (state : PositionBalanceState) : Except Raised PositionBalanceState :=
  if state.quantity ≠ 0 then .ok state else positionState state.quantity 0 0

def PositionEffect.value : PositionEffect → String
  | .increase => "increase"
  | .decrease => "decrease"
  | .none => "none"
  | .cashIncrease => "cash_increase"
  | .cashDecrease => "cash_decrease"
  | .mixed => "mixed"
  | .unknown => "unknown"
  | .targetModelRequired => "target_model_required"

/-- `PositionHandlerMissingError`, raised for a bookable type that should move a position. -/
def requirePositionHandler (type : TransactionType) : Except Raised Unit :=
  match type.definition with
  | some d =>
    if d.productionBookingAllowed ∧ d.positionEffect ≠ .none then
      .error (.valueError (type.code ++ " declares position effect '" ++ d.positionEffect.value ++
        "' but has no position reducer handler"))
    else .ok ()
  | none => .ok ()

def calculateNextPositionState (state : PositionBalanceState) (t : CostBasisTransaction) :
    Except Raised PositionBalanceState :=
  match positionUpdateHandler state t (effectiveProcessingType t) with
  | some result => result >>= zeroedCostBasisWhenFlat
  | none => do
    requirePositionHandler (effectiveProcessingType t)
    zeroedCostBasisWhenFlat state

end LotusCore
