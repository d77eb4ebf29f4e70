import LotusCore.CostBasis.Evidence

/-!
# Lots and their open state

The lot a purchase opens, the state it reports, and the validation shared by both cost-basis
methods before a lot is added or basis is moved.

* `CostLot`, `OpenLotState`: a lot and its checked open state.
* `validatedBuyLotInputs`: the quantities and costs a lot may open with.
* `allocateNonnegativeStorageShare`: a rounded share of an aggregate, never above what is left.
-/

namespace LotusCore

open Ledger List

/-- The state of one source lot: what it opened with and what is still open. -/
@[ext]
structure OpenLotState where
  originalQuantity : ℚ
  quantity : ℚ
  costLocal : ℚ
  costBase : ℚ
  quantity_nonneg : 0 ≤ quantity
  costLocal_nonneg : 0 ≤ costLocal
  costBase_nonneg : 0 ≤ costBase
  quantity_le : quantity ≤ originalQuantity

instance : DecidableEq OpenLotState := fun _ _ => decidable_of_iff' _ OpenLotState.ext_iff

namespace OpenLotState

/-- The checks of `OpenLotState.__post_init__`. -/
def new (originalQuantity quantity costLocal costBase : ℚ) : Except Raised OpenLotState :=
  if originalQuantity < 0 then .error (.valueError "original_quantity must be non-negative")
  else if hq : quantity < 0 then .error (.valueError "quantity must be non-negative")
  else if hl : costLocal < 0 then .error (.valueError "cost_local must be non-negative")
  else if hb : costBase < 0 then .error (.valueError "cost_base must be non-negative")
  else if ho : originalQuantity < quantity then
    .error (.valueError "quantity must not exceed original_quantity")
  else .ok ⟨originalQuantity, quantity, costLocal, costBase, not_lt.mp hq, not_lt.mp hl,
    not_lt.mp hb, not_lt.mp ho⟩

theorem new_eq_ok {o q l b : ℚ} {s : OpenLotState} :
    new o q l b = .ok s ↔
      s.originalQuantity = o ∧ s.quantity = q ∧ s.costLocal = l ∧ s.costBase = b := by
  constructor
  · intro h
    unfold new at h
    split_ifs at h
    cases h
    exact ⟨rfl, rfl, rfl, rfl⟩
  · rintro ⟨rfl, rfl, rfl, rfl⟩
    have h0 : ¬ s.originalQuantity < 0 := not_lt.mpr (s.quantity_nonneg.trans s.quantity_le)
    unfold new
    rw [if_neg h0, dif_neg (not_lt.mpr s.quantity_nonneg), dif_neg (not_lt.mpr s.costLocal_nonneg),
      dif_neg (not_lt.mpr s.costBase_nonneg), dif_neg (not_lt.mpr s.quantity_le)]

def closed (originalQuantity : ℚ) : Except Raised OpenLotState := new originalQuantity 0 0 0

end OpenLotState

structure CostLot where
  transactionId : String
  lotId : String
  acquisitionDate : ℤ
  originalQuantity : ℚ
  remainingQuantity : ℚ
  costPerShareLocal : ℚ
  costPerShareBase : ℚ
  deriving DecidableEq

namespace CostLot

/-- `CostLot.__init__`. -/
def new (transactionId : String) (acquisitionDate : ℤ) (quantity costPerShareLocal
    costPerShareBase originalQuantity : ℚ) : Except Raised CostLot :=
  if originalQuantity < quantity then
    .error (.valueError "lot original_quantity must not be below open quantity")
  else .ok ⟨transactionId, "LOT-" ++ transactionId, acquisitionDate, originalQuantity, quantity,
    costPerShareLocal, costPerShareBase⟩

def openState (lot : CostLot) : Except Raised OpenLotState := do
  let costLocal ← costBasisStateLedger.multiply lot.remainingQuantity lot.costPerShareLocal
    "lot_cost_local"
  let costBase ← costBasisStateLedger.multiply lot.remainingQuantity lot.costPerShareBase
    "lot_cost_base"
  OpenLotState.new lot.originalQuantity lot.remainingQuantity costLocal costBase

def costLocal (lot : CostLot) : ℚ := extendedCost lot.remainingQuantity lot.costPerShareLocal

def costBase (lot : CostLot) : ℚ := extendedCost lot.remainingQuantity lot.costPerShareBase

theorem openState_eq_ok {lot : CostLot} {s : OpenLotState} :
    lot.openState = .ok s ↔
      s.originalQuantity = lot.originalQuantity ∧ s.quantity = lot.remainingQuantity ∧
        s.costLocal = lot.costLocal ∧ s.costBase = lot.costBase ∧
        Storable lot.costLocal ∧ Storable lot.costBase := by
  unfold openState
  constructor
  · intro h
    obtain ⟨l, hl, h⟩ := Exec.except_bind_eq_ok.mp h
    obtain ⟨b, hb, h⟩ := Exec.except_bind_eq_ok.mp h
    obtain ⟨rfl, hls⟩ := multiply_eq_ok.mp hl
    obtain ⟨rfl, hbs⟩ := multiply_eq_ok.mp hb
    obtain ⟨h1, h2, h3, h4⟩ := OpenLotState.new_eq_ok.mp h
    exact ⟨h1, h2, h3, h4, hls, hbs⟩
  · rintro ⟨h1, h2, h3, h4, hls, hbs⟩
    rw [Exec.except_bind_eq_ok]
    refine ⟨lot.costLocal, multiply_eq_ok.mpr ⟨rfl, hls⟩, ?_⟩
    rw [Exec.except_bind_eq_ok]
    exact ⟨lot.costBase, multiply_eq_ok.mpr ⟨rfl, hbs⟩,
      OpenLotState.new_eq_ok.mpr ⟨h1, h2, h3, h4⟩⟩

end CostLot

/-! ## Opening a lot -/

/-- `resolve_source_lot_original_quantity`: a restored lot must bring its original quantity. -/
def resolveSourceLotOriginalQuantity (originalQuantity orderQuantity : Option ℚ)
    (currentQuantity : ℚ) : Except Raised ℚ :=
  match originalQuantity, orderQuantity with
  | some q, _ => .ok q
  | none, some _ =>
    .error (.valueError "Restored source lot is missing original quantity authority")
  | none, none => .ok currentQuantity

/-- `_validated_buy_lot_inputs`: quantity, base cost and local cost of a lot, or nothing for an
empty one. -/
def validatedBuyLotInputs (t : CostBasisTransaction) : Except Raised (Option (ℚ × ℚ × ℚ)) :=
  match t.netCost, t.netCostLocal with
  | some netCost, some netCostLocal =>
    if 0 < t.quantity then
      if 0 ≤ netCost ∧ 0 ≤ netCostLocal then .ok (some (t.quantity, netCost, netCostLocal))
      else .error (.valueError ("Buy transaction " ++ t.transactionId ++
        " must have non-negative lot cost basis."))
    else if t.quantity = 0 ∧ netCost = 0 ∧ netCostLocal = 0 then .ok none
    else .error (.valueError ("Buy transaction " ++ t.transactionId ++
      " must have positive lot quantity."))
  | _, _ => .error (.valueError ("Buy transaction " ++ t.transactionId ++
      " must have net_cost and net_cost_local calculated before adding as a lot."))

theorem validatedBuyLotInputs_eq_some {t : CostBasisTransaction} {q c l : ℚ} :
    validatedBuyLotInputs t = .ok (some (q, c, l)) ↔
      t.quantity = q ∧ t.netCost = some c ∧ t.netCostLocal = some l ∧ 0 < q ∧ 0 ≤ c ∧ 0 ≤ l := by
  unfold validatedBuyLotInputs
  constructor
  · intro h
    split at h
    · rename_i netCost netCostLocal hc hl
      split_ifs at h with h1 h2 h3
      · cases h
        exact ⟨rfl, hc, hl, h1, h2.1, h2.2⟩
      · cases h
    · cases h
  · rintro ⟨rfl, hc, hl, h1, h2, h3⟩
    simp only [hc, hl, if_pos h1, if_pos (And.intro h2 h3)]

theorem validatedBuyLotInputs_eq_none {t : CostBasisTransaction}
    (h : validatedBuyLotInputs t = .ok none) :
    t.quantity = 0 ∧ t.netCost = some 0 ∧ t.netCostLocal = some 0 := by
  unfold validatedBuyLotInputs at h
  split at h
  · rename_i c l hc hl
    split_ifs at h with h1 h2 h3
    · cases h
    · rw [hc, hl, h3.2.1, h3.2.2]
      exact ⟨h3.1, rfl, rfl⟩
  · cases h

/-- `_utc_transaction_date`: the UTC day of an instant. -/
def utcTransactionDate (t : CostBasisTransaction) : ℤ := t.transactionDate / 86400000000

/-! ## Shares and limits of a basis movement -/

def decimalText (x : ℚ) : String := toString x

/-- Normalize one share without taking more than what is left of the aggregate. -/
def allocateNonnegativeStorageShare (candidate aggregate allocated : ℚ) (fieldName : String) :
    Except Raised ℚ := do
  let normalized ← costBasisStateLedger.normalize candidate fieldName
  let unallocated ← costBasisStateLedger.subtract aggregate allocated ("unallocated_" ++ fieldName)
  if normalized < 0 ∨ unallocated < 0 then
    .error (.valueError (fieldName ++ " allocation must not be negative"))
  else .ok (min normalized unallocated)

theorem allocateNonnegativeStorageShare_eq_ok {c g a z : ℚ} {f : String}
    (h : allocateNonnegativeStorageShare c g a f = .ok z) : 0 ≤ z ∧ Storable z := by
  unfold allocateNonnegativeStorageShare at h
  obtain ⟨n, hn, h⟩ := Exec.except_bind_eq_ok.mp h
  obtain ⟨u, hu, h⟩ := Exec.except_bind_eq_ok.mp h
  split_ifs at h with hneg
  cases h
  rw [not_or, not_lt, not_lt] at hneg
  exact ⟨le_min hneg.1 hneg.2,
    (normalize_eq_ok.mp hn).2.min (storable_of_subtract hu)⟩

def nonPositiveSellQuantityError (sellQuantity : ℚ) : Option String :=
  if 0 ≤ sellQuantity then none
  else some ("Sell quantity (" ++ decimalText sellQuantity ++ ") must not be negative.")

/-- `_basis_transfer_amount_error`: why a basis movement is refused. -/
def basisTransferAmountError (costBase costLocal availableBase availableLocal : ℚ) :
    Option String :=
  if costBase < 0 ∨ costLocal < 0 then some "Basis transfer amounts must not be negative."
  else if availableBase < costBase ∨ availableLocal < costLocal then
    some ("Basis transfer exceeds available cost basis (requested_base=" ++ decimalText costBase ++
      ", available_base=" ++ decimalText availableBase ++ ", requested_local=" ++
      decimalText costLocal ++ ", available_local=" ++ decimalText availableLocal ++ ").")
  else if availableBase ≤ 0 ∨ availableLocal ≤ 0 then
    some "No positive cost basis is available to transfer."
  else none

/-- The identity of a source lot and its state before and after a basis movement. -/
structure SourceLotMovement where
  sourceLotId : String
  sourceTransactionId : String
  acquisitionDate : ℤ
  before : OpenLotState
  after : OpenLotState

/-- One step of `_basis_transfer_result`: a lot whose basis did not move leaves no evidence. -/
def basisTransferAllocation (allocations : List SourceLotBasisTransferAllocation)
    (m : SourceLotMovement) : Except Raised (List SourceLotBasisTransferAllocation) := do
  let localDelta ← costBasisStateLedger.subtract m.before.costLocal m.after.costLocal
    "transferred_cost_local"
  let baseDelta ← costBasisStateLedger.subtract m.before.costBase m.after.costBase
    "transferred_cost_base"
  if localDelta = 0 ∧ baseDelta = 0 then .ok allocations
  else do
    let allocation ← SourceLotBasisTransferAllocation.check
      { allocationOrdinal := allocations.length + 1
        sourceLotId := m.sourceLotId
        sourceTransactionId := m.sourceTransactionId
        sourceAcquisitionDate := m.acquisitionDate
        retainedQuantity := m.after.quantity
        sourceCostLocalBefore := m.before.costLocal
        sourceCostBaseBefore := m.before.costBase
        transferredCostLocal := localDelta
        transferredCostBase := baseDelta
        retainedCostLocal := m.after.costLocal
        retainedCostBase := m.after.costBase }
    .ok (allocations ++ [allocation])

/-- `_basis_transfer_result`: the evidence of a basis movement, reconciled with its totals. -/
def basisTransferResult (sourceLots : List SourceLotMovement)
    (transferredCostLocal transferredCostBase : ℚ) : Except Raised LotBasisTransferResult := do
  let allocations ← sourceLots.foldlM basisTransferAllocation []
  LotBasisTransferResult.new transferredCostLocal transferredCostBase allocations

theorem foldlM_basisTransferAllocation {lots : List SourceLotMovement}
    {acc allocations : List SourceLotBasisTransferAllocation}
    (hs : ∀ m ∈ lots, Storable m.before.costLocal ∧ Storable m.after.costLocal ∧
      Storable m.before.costBase ∧ Storable m.after.costBase)
    (hacc : ∀ a ∈ acc, Storable a.transferredCostLocal ∧ Storable a.transferredCostBase)
    (h : lots.foldlM basisTransferAllocation acc = .ok allocations) :
    (∀ a ∈ allocations, Storable a.transferredCostLocal ∧ Storable a.transferredCostBase) ∧
      (allocations.map (·.transferredCostLocal)).sum = (acc.map (·.transferredCostLocal)).sum +
        (lots.map fun m => m.before.costLocal - m.after.costLocal).sum ∧
      (allocations.map (·.transferredCostBase)).sum = (acc.map (·.transferredCostBase)).sum +
        (lots.map fun m => m.before.costBase - m.after.costBase).sum := by
  induction lots generalizing acc with
  | nil =>
    cases h
    simpa using hacc
  | cons m lots ih =>
    rw [foldlM_cons, Exec.except_bind_eq_ok] at h
    obtain ⟨acc', hstep, h⟩ := h
    obtain ⟨hbl, hal, hbb, hab⟩ := hs m (by simp)
    unfold basisTransferAllocation at hstep
    obtain ⟨dl, hdl, hstep⟩ := Exec.except_bind_eq_ok.mp hstep
    obtain ⟨db, hdb, hstep⟩ := Exec.except_bind_eq_ok.mp hstep
    obtain ⟨rfl, hdls⟩ := (subtract_eq_ok hbl hal).mp hdl
    obtain ⟨rfl, hdbs⟩ := (subtract_eq_ok hbb hab).mp hdb
    have hrest : ∀ m ∈ lots, Storable m.before.costLocal ∧ Storable m.after.costLocal ∧
        Storable m.before.costBase ∧ Storable m.after.costBase := fun m hm => hs m (by simp [hm])
    split_ifs at hstep with hzero
    · cases hstep
      obtain ⟨h1, h2, h3⟩ := ih hrest hacc h
      refine ⟨h1, ?_, ?_⟩
      · rw [h2, map_cons, sum_cons, hzero.1, zero_add]
      · rw [h3, map_cons, sum_cons, hzero.2, zero_add]
    · obtain ⟨a, ha, hstep⟩ := Exec.except_bind_eq_ok.mp hstep
      cases hstep
      obtain ⟨hal', hab'⟩ := SourceLotBasisTransferAllocation.check_eq_ok ha
      have hacc' : ∀ x ∈ acc ++ [a], Storable x.transferredCostLocal ∧
          Storable x.transferredCostBase := by
        intro x hx
        rcases mem_append.mp hx with hx | hx
        · exact hacc x hx
        · rw [mem_singleton.mp hx, hal', hab']
          exact ⟨hdls, hdbs⟩
      obtain ⟨h1, h2, h3⟩ := ih hrest hacc' h
      refine ⟨h1, ?_, ?_⟩
      · rw [h2]
        simp only [map_append, sum_append, map_cons, map_nil, sum_cons,
          sum_nil, hal']
        ring
      · rw [h3]
        simp only [map_append, sum_append, map_cons, map_nil, sum_cons,
          sum_nil, hab']
        ring

/-- **Reconciliation.** An accepted basis movement took exactly the requested amounts off the
source lots. -/
theorem basisTransferResult_conserves {lots : List SourceLotMovement} {l b : ℚ}
    {r : LotBasisTransferResult}
    (hs : ∀ m ∈ lots, Storable m.before.costLocal ∧ Storable m.after.costLocal ∧
      Storable m.before.costBase ∧ Storable m.after.costBase)
    (h : basisTransferResult lots l b = .ok r) :
    r.transferredCostLocal = l ∧ r.transferredCostBase = b ∧ r.errorReason = none ∧
      (lots.map fun m => m.before.costLocal - m.after.costLocal).sum = l ∧
      (lots.map fun m => m.before.costBase - m.after.costBase).sum = b := by
  obtain ⟨allocations, hfold, h⟩ := Exec.except_bind_eq_ok.mp h
  obtain ⟨hst, hl, hb⟩ := foldlM_basisTransferAllocation hs (by simp) hfold
  obtain ⟨rfl, hsl, hsb⟩ := LotBasisTransferResult.new_eq_ok h
  have h1 := sum_eq_of_sumAmounts (by simpa using fun a ha => (hst a ha).1) hsl
  have h2 := sum_eq_of_sumAmounts (by simpa using fun a ha => (hst a ha).2) hsb
  simp only [map_nil, sum_nil, zero_add] at hl hb
  exact ⟨rfl, rfl, rfl, by rw [h1, hl], by rw [h2, hb]⟩

end LotusCore
