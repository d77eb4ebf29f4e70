import LotusCore.CostBasis.Fifo
import LotusCore.CostBasis.AverageCost

/-!
# The lot disposition engine

The books of a cost-basis method and the evidence the engine stages until a transaction has been
calculated completely.

* `CostBasisBooks`: the books of the FIFO or of the AVCO strategy, with the strategy interface.
* `LotDispositionEngine`: the books with the pending and the published evidence.
-/

namespace LotusCore

open Exec

/-- Portfolio and instrument. -/
abbrev BookKey := String × String

/-! ## Books -/

/-- The books of one strategy. AVCO remembers the sources of all books. -/
inductive CostBasisBooks
  | fifo (books : BookKey → FifoBook)
  | avco (books : BookKey → AvcoBook) (sourceIds : List String)

/-- The configured method. -/
inductive CostBasisMethod
  | fifo
  | avco
  deriving Repr, DecidableEq

namespace CostBasisBooks

/-- A new strategy. -/
def empty : CostBasisMethod → CostBasisBooks
  | .fifo => .fifo fun _ => {}
  | .avco => .avco (fun _ => {}) []

variable (key : BookKey)

/-- A call on one book, under the method. -/
def onBook {α : Type} (onFifo : EStateM Raised FifoBook α) (onAvco : EStateM Raised AvcoBook α)
    : EStateM Raised CostBasisBooks α := fun books =>
  match books with
  | .fifo f => zoom (fun _ => f key) (fun _ b => .fifo (Function.update f key b)) onFifo books
  | .avco a ids =>
    zoom (fun _ => a key) (fun _ b => .avco (Function.update a key b) ids) onAvco books

/-- The remembered sources. -/
def sourceIds : CostBasisBooks → List String
  | .fifo _ => []
  | .avco _ ids => ids

/-- Remember a source. -/
def withSource (id : String) : CostBasisBooks → CostBasisBooks
  | .fifo f => .fifo f
  | .avco a ids => .avco a (ids ++ [id])

def addBuyLot (t : CostBasisTransaction) : EStateM Raised CostBasisBooks Unit := do
  onBook t.bookKey (fifoAddBuyLot t) (avcoAddBuyLot (← get).sourceIds t)
  if 0 < t.quantity then modify (withSource t.transactionId)

/-- `consume_sell_quantity_with_allocations`. -/
def consume (sellQuantity : ℚ) : EStateM Raised CostBasisBooks LotDisposalResult :=
  onBook key (fifoConsume sellQuantity) (avcoConsume sellQuantity)

/-- `restate_lot_quantities`. -/
def restate (signedQuantityDelta : ℚ) : EStateM Raised CostBasisBooks LotRestatement :=
  onBook key (fifoRestate signedQuantityDelta) (avcoRestate signedQuantityDelta)

/-- `transfer_basis_out_with_allocations`. -/
def transferBasisOut (costBase costLocal : ℚ) :
    EStateM Raised CostBasisBooks LotBasisTransferResult :=
  onBook key (fifoTransferBasisOut costBase costLocal) (avcoTransferBasisOut costBase costLocal)

/-- `get_available_quantity`. -/
def availableQuantity (books : CostBasisBooks) (key : BookKey) : ℚ :=
  match books with
  | .fifo f => (f key).available
  | .avco a _ => (a key).pool.quantity

/-- `get_open_lot_states`, for the lots of one book. -/
def openLotStates (books : CostBasisBooks) (key : BookKey) :
    Except Raised (List (String × OpenLotState)) :=
  match books with
  | .fifo f => (f key).openLotStates
  | .avco a _ => (a key).openLotStates

section Completed

variable {α : Type} {key : BookKey} {onFifo : EStateM Raised FifoBook α}
  {onAvco : EStateM Raised AvcoBook α} {f : BookKey → FifoBook} {a : BookKey → AvcoBook}
  {ids : List String} {b : CostBasisBooks} {x : α}

theorem onBook_fifo_eq_ok :
    onBook key onFifo onAvco (.fifo f) = .ok x b ↔
      ∃ book, onFifo (f key) = .ok x book ∧ b = .fifo (Function.update f key book) :=
  @zoom_eq_ok _ _ _ _ x (fun _ => f key) (fun _ book => fifo (Function.update f key book)) _
    (fifo f) _

theorem onBook_avco_eq_ok :
    onBook key onFifo onAvco (.avco a ids) = .ok x b ↔
      ∃ book, onAvco (a key) = .ok x book ∧ b = .avco (Function.update a key book) ids :=
  @zoom_eq_ok _ _ _ _ x (fun _ => a key) (fun _ book => avco (Function.update a key book) ids) _
    (avco a ids) _

theorem onBook_fifo_eq_error {e : Raised} :
    onBook key onFifo onAvco (.fifo f) = .error e b ↔
      ∃ book, onFifo (f key) = .error e book ∧ b = .fifo (Function.update f key book) :=
  @zoom_eq_error _ _ _ _ e (fun _ => f key) (fun _ book => fifo (Function.update f key book)) _
    (fifo f) _

theorem onBook_avco_eq_error {e : Raised} :
    onBook key onFifo onAvco (.avco a ids) = .error e b ↔
      ∃ book, onAvco (a key) = .error e book ∧ b = .avco (Function.update a key book) ids :=
  @zoom_eq_error _ _ _ _ e (fun _ => a key) (fun _ book => avco (Function.update a key book) ids) _
    (avco a ids) _

theorem addBuyLot_fifo_eq_ok {t : CostBasisTransaction} {u : Unit} :
    addBuyLot t (.fifo f) = .ok u b ↔
      ∃ book, fifoAddBuyLot t (f t.bookKey) = .ok () book ∧
        b = .fifo (Function.update f t.bookKey book) := by
  unfold addBuyLot
  rw [bind_get_eq_ok, bind_eq_ok]
  simp only [onBook_fifo_eq_ok]
  constructor
  · rintro ⟨_, _, ⟨book, hbook, rfl⟩, h⟩
    refine ⟨book, hbook, ?_⟩
    split_ifs at h
    · exact modify_eq_ok.mp h
    · exact (pure_eq_ok.mp h).2
  · rintro ⟨book, hbook, rfl⟩
    refine ⟨(), _, ⟨book, hbook, rfl⟩, ?_⟩
    split_ifs
    · exact modify_eq_ok.mpr rfl
    · exact pure_eq_ok.mpr ⟨rfl, rfl⟩

theorem addBuyLot_avco_eq_ok {t : CostBasisTransaction} {u : Unit} :
    addBuyLot t (.avco a ids) = .ok u b ↔
      ∃ book, avcoAddBuyLot ids t (a t.bookKey) = .ok () book ∧
        b = .avco (Function.update a t.bookKey book)
          (if 0 < t.quantity then ids ++ [t.transactionId] else ids) := by
  unfold addBuyLot
  rw [bind_get_eq_ok, bind_eq_ok]
  simp only [onBook_avco_eq_ok, sourceIds]
  constructor
  · rintro ⟨_, _, ⟨book, hbook, rfl⟩, h⟩
    refine ⟨book, hbook, ?_⟩
    split_ifs at h ⊢
    · exact modify_eq_ok.mp h
    · exact (pure_eq_ok.mp h).2
  · rintro ⟨book, hbook, rfl⟩
    refine ⟨(), _, ⟨book, hbook, rfl⟩, ?_⟩
    split_ifs
    · exact modify_eq_ok.mpr rfl
    · exact pure_eq_ok.mpr ⟨rfl, rfl⟩

theorem restate_update_eq_ok {d : ℚ} {book : FifoBook} {r : LotRestatement} :
    restate key d (.fifo (Function.update f key book)) = .ok r b ↔
      ∃ after, fifoRestate d book = .ok r after ∧ b = .fifo (Function.update f key after) := by
  rw [restate, onBook_fifo_eq_ok, Function.update_self]
  simp only [Function.update_idem]

theorem consume_update_eq_ok {q : ℚ} {book : FifoBook} {r : LotDisposalResult} :
    consume key q (.fifo (Function.update f key book)) = .ok r b ↔
      ∃ after, fifoConsume q book = .ok r after ∧ b = .fifo (Function.update f key after) := by
  rw [consume, onBook_fifo_eq_ok, Function.update_self]
  simp only [Function.update_idem]

end Completed

end CostBasisBooks

/-! ## Evidence -/

/-- A disposal with the transaction that caused it. -/
structure TransactionLotDisposal where
  disposalTransactionId : String
  result : LotDisposalResult
  deriving DecidableEq

/-- The checks of `TransactionLotDisposal.__post_init__`. -/
def TransactionLotDisposal.new (transactionId : String) (result : LotDisposalResult) :
    Except Raised TransactionLotDisposal := do
  let id ← requiredText transactionId "disposal_transaction_id"
  if result.errorReason.isSome ∨ result.consumedQuantity ≤ 0 then
    .error (.valueError "transaction disposal evidence requires a successful positive result")
  else .ok ⟨id, result⟩

/-- A basis transfer with its source and target. -/
structure TransactionLotBasisTransfer where
  sourceTransactionId : String
  targetTransactionId : String
  targetLotId : String
  result : LotBasisTransferResult
  deriving DecidableEq

/-- The checks of `TransactionLotBasisTransfer.__post_init__`. -/
def TransactionLotBasisTransfer.new (sourceId targetId targetLotId : String)
    (result : LotBasisTransferResult) : Except Raised TransactionLotBasisTransfer := do
  let source ← requiredText sourceId "source_transaction_id"
  let target ← requiredText targetId "target_transaction_id"
  let lot ← requiredText targetLotId "target_lot_id"
  if source = target then
    .error (.valueError "source and target transaction ids must differ")
  else if lot ≠ "LOT-" ++ target then
    .error (.valueError "target_lot_id must derive from target_transaction_id")
  else if result.errorReason.isSome then
    .error (.valueError "transaction basis-transfer evidence requires a successful result")
  else .ok ⟨source, target, lot, result⟩

/-- Evidence by transaction id, in the order of its entry. -/
abbrev Evidence (α : Type) := List (String × α)

/-- `dict[key] = value`. -/
def Evidence.set {α : Type} (e : Evidence α) (id : String) (value : α) : Evidence α :=
  if (e.lookup id).isSome then e.map fun p => if p.1 = id then (id, value) else p
  else e ++ [(id, value)]

/-- `dict.pop(key, None)`, without the value. -/
def Evidence.erase {α : Type} (e : Evidence α) (id : String) : Evidence α :=
  e.filter fun p => p.1 ≠ id

/-! ## The engine -/

/-- The books, and the evidence of disposals and basis transfers: pending and published. -/
structure LotDispositionEngine where
  books : CostBasisBooks
  pendingDisposals : Evidence TransactionLotDisposal := []
  disposals : Evidence TransactionLotDisposal := []
  pendingBasisTransfers : Evidence TransactionLotBasisTransfer := []
  basisTransfers : Evidence TransactionLotBasisTransfer := []

namespace LotDispositionEngine

/-- A call that leaves the evidence alone. -/
def onBooks {α : Type} (m : EStateM Raised CostBasisBooks α) :
    EStateM Raised LotDispositionEngine α :=
  zoom books (fun e b => { e with books := b }) m

variable (transactionId : String)

/-- The id evidence is kept under. -/
def normalizedTransactionId : Except Raised String :=
  requiredText transactionId "transaction_id"

variable (t : CostBasisTransaction)

def addBuyLot : EStateM Raised LotDispositionEngine Unit :=
  if 0 < t.quantity then onBooks (CostBasisBooks.addBuyLot t) else pure ()

/-- Keep a disposal until its transaction completes; other evidence for it is refused. -/
def stageDisposal (d : TransactionLotDisposal) : EStateM Raised LotDispositionEngine Unit := do
  let e ← get
  let id := d.disposalTransactionId
  refuseIf (∃ existing ∈ (e.pendingDisposals.lookup id).or (e.disposals.lookup id), existing ≠ d)
    "one disposal transaction produced conflicting source-lot evidence"
  modify fun e => { e with pendingDisposals := Evidence.set e.pendingDisposals id d }

/-- `consume_sell_quantity_with_allocations`. -/
def consume : EStateM Raised LotDispositionEngine LotDisposalResult := do
  let result ← onBooks (CostBasisBooks.consume t.bookKey t.quantity)
  if result.errorReason.isNone ∧ 0 < result.consumedQuantity then
    let disposal ← TransactionLotDisposal.new t.transactionId result
    stageDisposal disposal
  pure result

/-- `restate_lot_quantities`. -/
def restate (signedQuantityDelta : ℚ) : EStateM Raised LotDispositionEngine LotRestatement :=
  onBooks (CostBasisBooks.restate t.bookKey signedQuantityDelta)

/-- The same for a basis transfer. -/
def stageBasisTransfer (d : TransactionLotBasisTransfer) :
    EStateM Raised LotDispositionEngine Unit := do
  let e ← get
  let id := d.sourceTransactionId
  refuseIf (∃ existing ∈ (e.pendingBasisTransfers.lookup id).or (e.basisTransfers.lookup id),
    existing ≠ d) "one source transaction produced conflicting basis-transfer evidence"
  modify fun e => { e with pendingBasisTransfers := Evidence.set e.pendingBasisTransfers id d }

def transferBasisOut (costBase costLocal : ℚ) :
    EStateM Raised LotDispositionEngine LotBasisTransferResult := do
  let target := t.targetTransactionReference.getD ""
  if strip target = "" then
    pure (.failed "Basis-only transfer requires target_transaction_reference.")
  else
    let result ← onBooks (CostBasisBooks.transferBasisOut t.bookKey costBase costLocal)
    if result.errorReason.isNone then
      let transfer ← TransactionLotBasisTransfer.new t.transactionId target
        ("LOT-" ++ strip target) result
      stageBasisTransfer transfer
    pure result

/-- Drop what a transaction staged. -/
def discardPendingDisposal : EStateM Raised LotDispositionEngine Unit := do
  let id ← normalizedTransactionId transactionId
  modify fun e => { e with
    pendingDisposals := Evidence.erase e.pendingDisposals id
    pendingBasisTransfers := Evidence.erase e.pendingBasisTransfers id }

/-- Publish a disposal, once. -/
def recordDisposal (d : TransactionLotDisposal) : EStateM Raised LotDispositionEngine Unit := do
  let e ← get
  refuseIf (∃ existing ∈ e.disposals.lookup d.disposalTransactionId, existing ≠ d)
    "one disposal transaction produced conflicting source-lot evidence"
  modify fun e => { e with disposals := Evidence.set e.disposals d.disposalTransactionId d }

/-- Publish a basis transfer, once. -/
def recordBasisTransfer (d : TransactionLotBasisTransfer) :
    EStateM Raised LotDispositionEngine Unit := do
  let e ← get
  refuseIf (∃ existing ∈ e.basisTransfers.lookup d.sourceTransactionId, existing ≠ d)
    "one source transaction produced conflicting basis-transfer evidence"
  modify fun e => { e with
    basisTransfers := Evidence.set e.basisTransfers d.sourceTransactionId d }

/-- `commit_disposal_record`: publish what a completed transaction staged. -/
def commitDisposalRecord : EStateM Raised LotDispositionEngine Unit := do
  let id ← normalizedTransactionId transactionId
  let pending := (← get).pendingDisposals.lookup id
  modify fun e => { e with pendingDisposals := Evidence.erase e.pendingDisposals id }
  match pending with
  | some disposal => recordDisposal disposal
  | none => pure ()
  let pendingTransfer := (← get).pendingBasisTransfers.lookup id
  modify fun e => { e with pendingBasisTransfers := Evidence.erase e.pendingBasisTransfers id }
  match pendingTransfer with
  | some transfer => recordBasisTransfer transfer
  | none => pure ()

/-- The lots of an earlier calculation. -/
def restoreOpenLots (lots : List CostBasisTransaction) : EStateM Raised LotDispositionEngine Unit :=
  lots.forM fun t => onBooks (CostBasisBooks.addBuyLot t)

end LotDispositionEngine

end LotusCore
