import LotusCore.CostBasis.Calculator

/-!
# Cost-basis timelines

`CostBasisTimelineProcessor`: the calculation of a whole timeline in canonical order, and of an
ordered append on restored lots.

* `calculateTransaction`: one transaction; what its calculation raises is recorded as its error.
* `processSortedTimeline`: a timeline, transaction by transaction.
* `processTransactions`, `processIncrement`: the full calculation and the increment.
-/

namespace LotusCore

/-- What a timeline carries from one transaction to the next. -/
structure TimelineState where
  engine : LotDispositionEngine
  errors : ErrorCollector := []

/-- `_calculate_transaction_costs`: the state after it, the transaction as calculated, and whether
no error is recorded for it. -/
def calculateTransaction (s : TimelineState) (t : CostBasisTransaction) :
    TimelineState × CostBasisTransaction × Bool :=
  match calculateTransactionCosts ⟨t, s.engine, s.errors⟩ with
  | .ok _ c => (⟨c.engine, c.errors⟩, c.transaction, !c.errors.hasErrorsFor t.transactionId)
  | .error e c =>
    (⟨c.engine, c.errors.add t.transactionId ("Unexpected error: " ++ e.message)⟩,
      c.transaction, false)

/-- `_process_sorted_timeline`: the transactions accepted, as calculated. -/
def processSortedTimeline : TimelineState → List CostBasisTransaction →
    TimelineState × List CostBasisTransaction
  | s, [] => (s, [])
  | s, t :: timeline =>
    let (s', calculated, accepted) := calculateTransaction s t
    let (final, processed) := processSortedTimeline s' timeline
    (final, if accepted then calculated :: processed else processed)

/-- `CostBasisTimelineResult`: the books stand for the open-lot states read off them. -/
structure CostBasisTimelineResult where
  processed : List CostBasisTransaction
  errored : ErrorCollector
  books : CostBasisBooks
  disposals : Evidence TransactionLotDisposal
  basisTransfers : Evidence TransactionLotBasisTransfer

def validTransactions (transactions : List CostBasisTransaction) : List CostBasisTransaction :=
  transactions.filter fun t => t.errorReason.getD "" = ""

def acceptedEvidence {α : Type} (evidence : Evidence α) (accepted : List CostBasisTransaction) :
    Evidence α :=
  evidence.filter fun p => p.1 ∈ accepted.map fun t => strip t.transactionId

def timelineResult (s : TimelineState) (processed : List CostBasisTransaction) :
    CostBasisTimelineResult where
  processed := processed
  errored := s.errors
  books := s.engine.books
  disposals := acceptedEvidence s.engine.disposals processed
  basisTransfers := acceptedEvidence s.engine.basisTransfers processed

/-- A processor before a timeline: its engine holds no evidence and its collector no errors. -/
def TimelineState.start (method : CostBasisMethod) : TimelineState :=
  ⟨{ books := .empty method }, []⟩

/-- `process_transactions` on a new processor. -/
def processTransactions (method : CostBasisMethod) (existing new : List CostBasisTransaction) :
    CostBasisTimelineResult :=
  let timeline := sortTransactions [] (validTransactions (existing ++ new))
  let (final, processed) := processSortedTimeline (.start method) timeline
  let newIds := (validTransactions new).map (·.transactionId)
  timelineResult final (processed.filter fun t => t.transactionId ∈ newIds)

/-- `process_increment` on a new processor: lots are restored in canonical order, then the new
transactions are calculated. -/
def processIncrement (method : CostBasisMethod) (initialOpenLots new : List CostBasisTransaction) :
    Except Raised CostBasisTimelineResult := do
  let restored ← Exec.stateAfter
    (LotDispositionEngine.restoreOpenLots (sortTransactions [] (validTransactions initialOpenLots)))
    (TimelineState.start method).engine
  let (final, processed) := processSortedTimeline ⟨restored, []⟩
    (sortTransactions [] (validTransactions new))
  .ok (timelineResult final processed)

end LotusCore
