import LotusCore.CostBasis.Transaction

/-!
# Source-lot evidence

The immutable evidence a disposal or a basis transfer leaves for each source lot. Each record holds
the facts its constructor checks, so a value that fails a check does not exist.

* `SourceLotDisposalAllocation`, `LotDisposalResult`: what a disposal took from which lot.
* `SourceLotBasisTransferAllocation`, `LotBasisTransferResult`: the basis moved off each lot.
* `sum_eq_of_sumAmounts`: amounts that reconcile through the ledger policy add up exactly.
-/

namespace LotusCore

open Exec

/-- A nonblank text, stripped. -/
def requiredText (value fieldName : String) : Except Raised String :=
  if strip value = "" then .error (.valueError (fieldName ++ " must be nonblank"))
  else .ok (strip value)

/-- `_require_decimal`, for an amount that may be zero. -/
def requireNonNegative (value : ℚ) (fieldName : String) : Except Raised Unit :=
  refuseIf (value < 0) (fieldName ++ " must be non-negative")

/-- `_sum_amounts`: the amounts added one by one through the ledger policy. -/
def sumAmounts (values : List ℚ) (fieldName : String) : Except Raised ℚ :=
  values.foldlM (fun total value => costBasisStateLedger.add total value fieldName) 0

theorem foldlM_add_eq_ok {l : List ℚ} {a z : ℚ} {f : String} (ha : Storable a)
    (hl : ∀ x ∈ l, Storable x)
    (h : l.foldlM (fun total value => costBasisStateLedger.add total value f) a = .ok z) :
    z = a + l.sum ∧ Storable z := by
  induction l generalizing a with
  | nil =>
    cases h
    simpa using ha
  | cons x l ih =>
    rw [List.foldlM_cons, except_bind_eq_ok] at h
    obtain ⟨b, hb, h⟩ := h
    obtain ⟨rfl, hbs⟩ := (Ledger.add_eq_ok ha (hl x (by simp))).mp hb
    obtain ⟨hz, hzs⟩ := ih hbs (fun y hy => hl y (by simp [hy])) h
    exact ⟨by rw [hz, List.sum_cons]; ring, hzs⟩

theorem sum_eq_of_sumAmounts {l : List ℚ} {z : ℚ} {f : String} (hl : ∀ x ∈ l, Storable x)
    (h : sumAmounts l f = .ok z) : z = l.sum := by
  simpa using (foldlM_add_eq_ok storable_zero hl h).1

/-! ## Disposals -/

/-- What a disposal took from one source lot, within the lot's open quantity. -/
@[ext]
structure SourceLotDisposalAllocation where
  sourceLotId : String
  sourceTransactionId : String
  sourceAcquisitionDate : ℤ
  allocationOrdinal : ℕ
  consumedQuantity : ℚ
  consumedCostLocal : ℚ
  consumedCostBase : ℚ
  sourceOriginalQuantity : ℚ
  sourceOpenQuantityBefore : ℚ
  quantity_pos : 0 < consumedQuantity
  costLocal_nonneg : 0 ≤ consumedCostLocal
  costBase_nonneg : 0 ≤ consumedCostBase
  open_le_original : sourceOpenQuantityBefore ≤ sourceOriginalQuantity
  consumed_le_open : consumedQuantity ≤ sourceOpenQuantityBefore

instance : DecidableEq SourceLotDisposalAllocation := fun _ _ =>
  decidable_of_iff' _ SourceLotDisposalAllocation.ext_iff

/-- The checks of `SourceLotDisposalAllocation.__post_init__`. -/
def SourceLotDisposalAllocation.new (lotId transactionId : String) (acquisitionDate : ℤ)
    (ordinal : ℕ) (quantity costLocal costBase original openBefore : ℚ) :
    Except Raised SourceLotDisposalAllocation := do
  let lotId ← requiredText lotId "source_lot_id"
  let transactionId ← requiredText transactionId "source_transaction_id"
  refuseIf (ordinal < 1) "allocation_ordinal must be positive"
  if hq : 0 < quantity then
    if hl : 0 ≤ costLocal then
      if hb : 0 ≤ costBase then
        if original ≤ 0 then .error (.valueError "source_original_quantity must be positive")
        else if openBefore ≤ 0 then
          .error (.valueError "source_open_quantity_before must be positive")
        else if ho : openBefore ≤ original then
          if hc : quantity ≤ openBefore then
            .ok ⟨lotId, transactionId, acquisitionDate, ordinal, quantity, costLocal, costBase,
              original, openBefore, hq, hl, hb, ho, hc⟩
          else .error (.valueError "consumed quantity must not exceed source open quantity")
        else .error (.valueError "source open quantity must not exceed original quantity")
      else .error (.valueError "consumed_cost_base must be non-negative")
    else .error (.valueError "consumed_cost_local must be non-negative")
  else .error (.valueError "consumed_quantity must be positive")

theorem SourceLotDisposalAllocation.new_eq_ok {lotId transactionId : String} {date : ℤ}
    {ordinal : ℕ} {quantity costLocal costBase original openBefore : ℚ}
    {a : SourceLotDisposalAllocation}
    (h : new lotId transactionId date ordinal quantity costLocal costBase original openBefore =
      .ok a) :
    a.sourceLotId = strip lotId ∧ a.sourceTransactionId = strip transactionId ∧
      a.allocationOrdinal = ordinal ∧ a.consumedQuantity = quantity ∧
      a.consumedCostLocal = costLocal ∧ a.consumedCostBase = costBase := by
  unfold new at h
  obtain ⟨l, hl, h⟩ := except_bind_eq_ok.mp h
  obtain ⟨t, ht, h⟩ := except_bind_eq_ok.mp h
  replace h := (refuseIf_bind_eq_ok.mp h).2
  unfold requiredText at hl ht
  split_ifs at hl ht h
  cases hl
  cases ht
  cases h
  exact ⟨rfl, rfl, rfl, rfl, rfl, rfl⟩

/-- What a disposal consumed, or why it was refused. -/
structure LotDisposalResult where
  costBase : ℚ
  costLocal : ℚ
  consumedQuantity : ℚ
  allocations : List SourceLotDisposalAllocation
  errorReason : Option String
  deriving DecidableEq

namespace LotDisposalResult

def failed (reason : String) : LotDisposalResult := ⟨0, 0, 0, [], some reason⟩

def empty : LotDisposalResult := ⟨0, 0, 0, [], none⟩

/-- The checks of `LotDisposalResult.__post_init__` for a disposal that was not refused. -/
def new (costBase costLocal consumedQuantity : ℚ)
    (allocations : List SourceLotDisposalAllocation) : Except Raised LotDisposalResult := do
  requireNonNegative costBase "cost_base"
  requireNonNegative costLocal "cost_local"
  requireNonNegative consumedQuantity "consumed_quantity"
  refuseIf (allocations.map (·.allocationOrdinal) ≠ List.range' 1 allocations.length)
    "allocation ordinals must be contiguous from one"
  refuseIf (¬ (allocations.map (·.sourceLotId)).Nodup)
    "a source lot can appear only once in one disposal result"
  if consumedQuantity = 0 then do
    refuseIf (costBase ≠ 0 ∨ costLocal ≠ 0 ∨ allocations ≠ [])
      "zero-quantity disposal results must be empty"
    .ok ⟨costBase, costLocal, consumedQuantity, allocations, none⟩
  else do
    refuseIf (allocations = []) "successful disposal must carry source-lot allocations"
    let quantity ← sumAmounts (allocations.map (·.consumedQuantity)) "allocated_disposal_quantity"
    let local_ ← sumAmounts (allocations.map (·.consumedCostLocal))
      "allocated_disposal_cost_local"
    let base ← sumAmounts (allocations.map (·.consumedCostBase)) "allocated_disposal_cost_base"
    refuseIf (quantity ≠ consumedQuantity)
      "source-lot allocation quantity does not reconcile to disposal aggregate"
    refuseIf (local_ ≠ costLocal) "source-lot local cost does not reconcile to disposal aggregate"
    refuseIf (base ≠ costBase) "source-lot base cost does not reconcile to disposal aggregate"
    .ok ⟨costBase, costLocal, consumedQuantity, allocations, none⟩

/-- A result that passed its checks carries the values it was built from. -/
theorem new_eq_ok {costBase costLocal consumedQuantity : ℚ}
    {allocations : List SourceLotDisposalAllocation} {r : LotDisposalResult}
    (h : new costBase costLocal consumedQuantity allocations = .ok r) :
    r = ⟨costBase, costLocal, consumedQuantity, allocations, none⟩ ∧ 0 ≤ costBase ∧
      0 ≤ costLocal ∧ 0 ≤ consumedQuantity := by
  simp only [new, requireNonNegative, refuseIf_bind_eq_ok, not_lt] at h
  obtain ⟨hbase, hlocal, hquantity, -, -, h⟩ := h
  refine ⟨?_, hbase, hlocal, hquantity⟩
  split_ifs at h
  · exact (Except.ok.inj (refuseIf_bind_eq_ok.mp h).2).symm
  · obtain ⟨-, h⟩ := refuseIf_bind_eq_ok.mp h
    obtain ⟨_, -, h⟩ := except_bind_eq_ok.mp h
    obtain ⟨_, -, h⟩ := except_bind_eq_ok.mp h
    obtain ⟨_, -, h⟩ := except_bind_eq_ok.mp h
    simp only [refuseIf_bind_eq_ok] at h
    exact (Except.ok.inj h.2.2.2).symm

end LotDisposalResult

/-! ## Basis transfers -/

/-- `_nonnegative_decimal`. -/
def nonnegativeDecimal (value : ℚ) (fieldName : String) : Except Raised Unit :=
  refuseIf (value < 0) (fieldName ++ " must be nonnegative")

/-- The basis a transfer takes off one source lot and leaves on it. -/
structure SourceLotBasisTransferAllocation where
  allocationOrdinal : ℕ
  sourceLotId : String
  sourceTransactionId : String
  sourceAcquisitionDate : ℤ
  retainedQuantity : ℚ
  sourceCostLocalBefore : ℚ
  sourceCostBaseBefore : ℚ
  transferredCostLocal : ℚ
  transferredCostBase : ℚ
  retainedCostLocal : ℚ
  retainedCostBase : ℚ
  deriving DecidableEq

/-- The checks of `SourceLotBasisTransferAllocation.__post_init__`. -/
def SourceLotBasisTransferAllocation.check (a : SourceLotBasisTransferAllocation) :
    Except Raised SourceLotBasisTransferAllocation := do
  refuseIf (a.allocationOrdinal < 1) "allocation_ordinal must be a positive integer"
  let lotId ← requiredText a.sourceLotId "source_lot_id"
  let transactionId ← requiredText a.sourceTransactionId "source_transaction_id"
  [(a.retainedQuantity, "retained_quantity"),
    (a.sourceCostLocalBefore, "source_cost_local_before"),
    (a.sourceCostBaseBefore, "source_cost_base_before"),
    (a.transferredCostLocal, "transferred_cost_local"),
    (a.transferredCostBase, "transferred_cost_base"),
    (a.retainedCostLocal, "retained_cost_local"),
    (a.retainedCostBase, "retained_cost_base")].forM fun field => nonnegativeDecimal field.1 field.2
  refuseIf (a.retainedQuantity ≤ 0) "retained_quantity must be positive"
  refuseIf (a.transferredCostLocal = 0 ∧ a.transferredCostBase = 0)
    "basis-transfer allocations require a positive basis movement"
  refuseIf (ambientContext.round (a.transferredCostLocal + a.retainedCostLocal) ≠
      a.sourceCostLocalBefore) "source local basis must equal transferred plus retained basis"
  refuseIf (ambientContext.round (a.transferredCostBase + a.retainedCostBase) ≠
      a.sourceCostBaseBefore) "source base basis must equal transferred plus retained basis"
  .ok { a with sourceLotId := lotId, sourceTransactionId := transactionId }

theorem SourceLotBasisTransferAllocation.check_eq_ok {a a' : SourceLotBasisTransferAllocation}
    (h : a.check = .ok a') : a'.transferredCostLocal = a.transferredCostLocal ∧
      a'.transferredCostBase = a.transferredCostBase := by
  obtain ⟨-, h⟩ := refuseIf_bind_eq_ok.mp h
  obtain ⟨l, -, h⟩ := except_bind_eq_ok.mp h
  obtain ⟨t, -, h⟩ := except_bind_eq_ok.mp h
  obtain ⟨_, -, h⟩ := except_bind_eq_ok.mp h
  simp only [refuseIf_bind_eq_ok] at h
  cases h.2.2.2.2
  exact ⟨rfl, rfl⟩

/-- The basis a transfer moved, or why it was refused. -/
structure LotBasisTransferResult where
  transferredCostLocal : ℚ
  transferredCostBase : ℚ
  allocations : List SourceLotBasisTransferAllocation
  errorReason : Option String
  deriving DecidableEq

namespace LotBasisTransferResult

def failed (reason : String) : LotBasisTransferResult := ⟨0, 0, [], some reason⟩

/-- The checks of `LotBasisTransferResult.__post_init__` for an accepted transfer. -/
def new (transferredCostLocal transferredCostBase : ℚ)
    (allocations : List SourceLotBasisTransferAllocation) :
    Except Raised LotBasisTransferResult := do
  nonnegativeDecimal transferredCostLocal "transferred_cost_local"
  nonnegativeDecimal transferredCostBase "transferred_cost_base"
  refuseIf (allocations = []) "successful basis transfer requires source-lot allocations"
  refuseIf (allocations.map (·.allocationOrdinal) ≠ List.range' 1 allocations.length)
    "basis-transfer allocation ordinals must be contiguous"
  refuseIf (¬ (allocations.map (·.sourceLotId)).Nodup)
    "a source lot can appear only once in one basis transfer"
  let local_ ← sumAmounts (allocations.map (·.transferredCostLocal)) "transferred_cost_local"
  let base ← sumAmounts (allocations.map (·.transferredCostBase)) "transferred_cost_base"
  refuseIf (local_ ≠ transferredCostLocal)
    "source-lot local basis does not reconcile to transfer aggregate"
  refuseIf (base ≠ transferredCostBase)
    "source-lot base basis does not reconcile to transfer aggregate"
  .ok ⟨transferredCostLocal, transferredCostBase, allocations, none⟩

theorem new_eq_ok {transferredLocal transferredBase : ℚ}
    {allocations : List SourceLotBasisTransferAllocation} {r : LotBasisTransferResult}
    (h : new transferredLocal transferredBase allocations = .ok r) :
    r = ⟨transferredLocal, transferredBase, allocations, none⟩ ∧
      sumAmounts (allocations.map (·.transferredCostLocal)) "transferred_cost_local" =
        .ok transferredLocal ∧
      sumAmounts (allocations.map (·.transferredCostBase)) "transferred_cost_base" =
        .ok transferredBase := by
  simp only [new, nonnegativeDecimal, refuseIf_bind_eq_ok] at h
  obtain ⟨-, -, -, -, -, h⟩ := h
  obtain ⟨l, hl, h⟩ := except_bind_eq_ok.mp h
  obtain ⟨b, hb, h⟩ := except_bind_eq_ok.mp h
  simp only [refuseIf_bind_eq_ok, not_not] at h
  obtain ⟨rfl, rfl, h⟩ := h
  exact ⟨(Except.ok.inj h).symm, hl, hb⟩

end LotBasisTransferResult

end LotusCore
