import LotusCore.Valuation.WatermarkAdvance
import LotusCore.Data.Ordered
import Mathlib.Data.Rat.Defs

/-!
# Backfill of valuations

The scheduler plans a valuation job for every date a lagging position has not been valued on, claims
pending jobs, and moves the watermark of a position to where its snapshots are contiguous. A reset
moves watermarks back when the facts of an earlier date change. Dates are days, times integers.

* `ValuationTables`: the tables the scheduler and the workers share.
* `upsertJobs`: jobs inserted, or re-armed where a job of the same scope allows it.
* `createBackfillJobs`, `claimEligibleJobs`, `completeJobs`, `advanceWatermarks`: the steps of a
  poll.
* `contiguousSnapshotDate`: how far a position is valued without a gap.
* `resetImpactedWatermarks`: the work of a `RESET_WATERMARKS` job.
-/

namespace LotusCore.Valuation

open LotusCore Table

/-! ## Tables -/

/-- The state of a valuation job. -/
inductive JobStatus
  | pending
  | processing
  | complete
  | failed
  | skippedSuperseded
  deriving DecidableEq, Repr

/-- What a valuation job is for: portfolio, security, date and epoch. -/
abbrev JobScope := String ×ₗ String ×ₗ ℤ ×ₗ ℤ

/-- The scope of a position on a date in an epoch. -/
def jobScope (k : PositionKey) (date epoch : ℤ) : JobScope :=
  toLex (k.1, toLex (k.2, toLex (date, epoch)))

/-- A row of `portfolio_valuation_jobs`. -/
structure ValuationJob where
  portfolioId : String
  securityId : String
  valuationDate : ℤ
  epoch : ℤ
  status : JobStatus := .pending
  requeueRequested : Bool := false
  correlationId : Option String := none
  deriving DecidableEq, Repr

def ValuationJob.key (job : ValuationJob) : PositionKey := (job.portfolioId, job.securityId)

def ValuationJob.scope (job : ValuationJob) : JobScope :=
  jobScope job.key job.valuationDate job.epoch

/-- A row of `position_history`. -/
structure HistoryRow where
  id : ℕ
  portfolioId : String
  securityId : String
  epoch : ℤ
  positionDate : ℤ
  quantity : ℚ
  deriving DecidableEq, Repr

def HistoryRow.key (row : HistoryRow) : PositionKey := (row.portfolioId, row.securityId)

/-- A row of `daily_position_snapshots`. -/
structure Snapshot where
  portfolioId : String
  securityId : String
  date : ℤ
  epoch : ℤ
  quantity : ℚ
  deriving DecidableEq, Repr

def Snapshot.scope (snapshot : Snapshot) : JobScope :=
  jobScope (snapshot.portfolioId, snapshot.securityId) snapshot.date snapshot.epoch

/-- The tables of the scheduler, with the dates of the default calendar and the securities that
have an instrument. `claims` records the scopes claimed so far. -/
structure ValuationTables where
  states : List PositionState
  jobs : List ValuationJob
  history : List HistoryRow
  snapshots : List Snapshot
  businessDates : List ℤ
  instruments : List String
  claims : List JobScope
  deriving DecidableEq

namespace ValuationTables

variable (db : ValuationTables)

/-! ## Queries -/

/-- `get_latest_business_date`: of the calendar, else of the snapshots and jobs. -/
def latestBusinessDate : Option ℤ :=
  match db.businessDates.max? with
  | some date => some date
  | none => (db.snapshots.map (·.date) ++ db.jobs.map (·.valuationDate)).max?

variable (k : PositionKey)

/-- The history of a position in an epoch. -/
def historyOf (epoch : ℤ) : List HistoryRow :=
  db.history.filter fun row => row.key = k ∧ row.epoch = epoch

/-- `get_first_open_dates_for_keys`, for one key. -/
def firstOpenDate (epoch : ℤ) : Option ℤ :=
  ((db.historyOf k epoch).map (·.positionDate)).min?

/-- The last row up to a date. -/
def latestHistory (epoch date : ℤ) : Option HistoryRow :=
  Ordered.latest (fun row => toLex (row.positionDate, row.id))
    ((db.historyOf k epoch).filter fun row => row.positionDate ≤ date)

/-- Every day after the first, through the last. -/
def daysBetween (after through : ℤ) : List ℤ :=
  (List.range (through - after).toNat).map fun i => after + 1 + i

/-- `get_valuation_dates_between`: the dates of the calendar, or every day without one. -/
def valuationDatesBetween (after through : ℤ) : List ℤ :=
  if db.businessDates = [] then daysBetween after through
  else (db.businessDates.dedup.filter fun date => after < date ∧ date ≤ through).insertionSort
    (· ≤ ·)

/-- A snapshot has the quantity of the latest history up to its date, if there is any. -/
def snapshotMatches (snapshot : Snapshot) : Bool :=
  match db.latestHistory (snapshot.portfolioId, snapshot.securityId) snapshot.epoch
      snapshot.date with
  | none => true
  | some row => snapshot.quantity = row.quantity

/-- The snapshots of a position that agree with its history. -/
def matchingSnapshots (epoch : ℤ) : List Snapshot :=
  db.snapshots.filter fun snapshot =>
    (snapshot.portfolioId, snapshot.securityId) = k ∧ snapshot.epoch = epoch ∧
      db.snapshotMatches snapshot

/-- The dates a lagging position should have been valued on. -/
def expectedDates (state : PositionState) (latest : ℤ) : List ℤ :=
  let start := match db.firstOpenDate state.key state.epoch with
    | none => state.watermarkDate + 1
    | some first => max (state.watermarkDate + 1) first
  db.valuationDatesBetween (start - 1) latest

/-- The first expected date without a matching snapshot. -/
def firstGap (state : PositionState) (latest : ℤ) : Option ℤ :=
  ((db.expectedDates state latest).filter fun date =>
    date ∉ (db.matchingSnapshots state.key state.epoch).map (·.date)).min?

/-- `build_contiguous_snapshot_dates_stmt`, for one state: the date before the first gap, else the
latest matching snapshot. -/
def contiguousSnapshotDate (latest : ℤ) (state : PositionState) : Option ℤ :=
  match ((db.matchingSnapshots state.key state.epoch).map (·.date)).max? with
  | none => none
  | some lastSnapshot =>
    match db.firstGap state latest with
    | none => some (min lastSnapshot latest)
    | some gap =>
      if db.businessDates = [] then some (gap - 1)
      else some (((db.businessDates.filter (· < gap)).max?).getD state.watermarkDate)

end ValuationTables

/-! ## Jobs -/

variable (rearmCompleted : Bool)

/-- Whether a job in the way of an upsert is re-armed by it. -/
def conflictUpdates (job request : ValuationJob) : Bool :=
  let samePendingLineage := job.status = .pending ∧ job.correlationId = request.correlationId
  job.status ≠ .processing ∧ ¬samePendingLineage ∧
    (rearmCompleted ∨ (job.status ≠ .complete ∧ job.status ≠ .failed))

/-- `_valuation_job_upsert_stmt` for one request that does not requeue running work. -/
def upsertJob (jobs : List ValuationJob) (request : ValuationJob) : List ValuationJob :=
  if jobs.any fun job => job.scope = request.scope then
    updateWhere (fun job => job.scope = request.scope && conflictUpdates rearmCompleted job request)
      (fun job => { job with
        status := .pending
        requeueRequested := false
        correlationId := request.correlationId })
      jobs
  else jobs ++ [{ request with status := .pending, requeueRequested := false }]

/-- `_normalize_jobs`: the last request of each scope, in the order of the scopes. -/
def normalizeJobs (requests : List ValuationJob) : List ValuationJob :=
  (requests.foldl (fun kept r => kept.filter (·.scope ≠ r.scope) ++ [r]) []).insertionSort
    fun a b => a.scope ≤ b.scope

/-- `get_latest_epochs_for_scopes`, for the scope of one request. -/
def latestEpoch (jobs : List ValuationJob) (request : ValuationJob) : Option ℤ :=
  ((jobs.filter fun job => job.key = request.key ∧ job.valuationDate = request.valuationDate).map
    (·.epoch)).max?

/-- `_is_stale_job`: a newer epoch of its scope exists. -/
def isStaleJob (jobs : List ValuationJob) (request : ValuationJob) : Bool :=
  match latestEpoch jobs request with
  | none => false
  | some latest => request.epoch < latest

/-- `_skip_superseded_pending_jobs`: pending jobs of older epochs are not run. `before` are the jobs
before the upsert. -/
def skipSupersededPendingJobs (before requests jobs : List ValuationJob) : List ValuationJob :=
  let target := fun (job : ValuationJob) =>
    ((requests.filter fun r => r.key = job.key ∧ r.valuationDate = job.valuationDate).map fun r =>
      max r.epoch ((latestEpoch before r).getD r.epoch)).max?
  updateWhere
    (fun job => job.status = .pending && match target job with
      | none => false
      | some latest => job.epoch < latest)
    (fun job => { job with status := .skippedSuperseded }) jobs

/-- `upsert_jobs` without `requeue_if_processing`. -/
def upsertJobs (requests jobs : List ValuationJob) : List ValuationJob :=
  let normalized := normalizeJobs requests
  let eligible := normalized.filter fun request => !isStaleJob jobs request
  if eligible = [] then jobs
  else skipSupersededPendingJobs jobs normalized (eligible.foldl (upsertJob rearmCompleted) jobs)

/-! ## The steps of a poll -/

/-- A position without history is current at once. -/
def buildNoHistoryNormalizationUpdates (states : List PositionState) (latest : ℤ) :
    List PositionStateUpdate :=
  states.map fun state =>
    { portfolioId := state.portfolioId
      securityId := state.securityId
      expectedEpoch := state.epoch
      watermarkDate := latest
      status := .current }

section Steps

-- The database compares ids under its own collation; a planned job carries a correlation id made of
-- its state and date.
variable {κ : Type} [LinearOrder κ] (collate : String → κ)
  (correlationId : PositionState → ℤ → Option String) (db : ValuationTables)

/-- `get_states_needing_backfill`. -/
def statesNeedingBackfill (latest : ℤ) (limit : ℕ) : List PositionState :=
  loadStates collate (fun state => state.watermarkDate < latest && state.status.schedulable &&
    db.instruments.contains state.securityId) limit db.states

/-- One request for each date after the watermark on which the position is open. -/
def buildBackfillJobRequests (state : PositionState) (firstOpen : ℤ) (dates : List ℤ) :
    List ValuationJob :=
  (dates.filter fun date => max state.watermarkDate (firstOpen - 1) < date).map fun date =>
    { portfolioId := state.portfolioId
      securityId := state.securityId
      valuationDate := date
      epoch := state.epoch
      correlationId := correlationId state date }

/-- The requests of a batch, position by position. -/
def backfillRequests (states : List PositionState) (dates : List ℤ) : List ValuationJob :=
  (states.insertionSort fun a b =>
    toLex (a.portfolioId, toLex (a.securityId, a.epoch)) ≤
      toLex (b.portfolioId, toLex (b.securityId, b.epoch))).flatMap fun state =>
    match db.firstOpenDate state.key state.epoch with
    | none => []
    | some first => buildBackfillJobRequests correlationId state first dates

/-- The positions to normalize. -/
def statesWithoutHistory (states : List PositionState) : List PositionState :=
  states.filter fun state =>
    (db.firstOpenDate state.key state.epoch).isNone && state.status = .current

/-- The date after which each position with history needs work. -/
def backfillStarts (states : List PositionState) : List ℤ :=
  states.filterMap fun state =>
    (db.firstOpenDate state.key state.epoch).map fun first => max state.watermarkDate (first - 1)

/-- The jobs the planner requests for a batch of states. -/
def plannedRequests (states : List PositionState) (latest : ℤ) : List ValuationJob :=
  match (backfillStarts db states).min? with
  | none => []
  | some earliest =>
    backfillRequests correlationId db states (db.valuationDatesBetween earliest latest)

/-- The job table after the requests, upserted in chunks. -/
def plannedJobs (states : List PositionState) (latest : ℤ) (chunkSize : ℕ) : List ValuationJob :=
  ((plannedRequests correlationId db states latest).toChunks chunkSize).foldl
    (fun jobs chunk => upsertJobs false chunk jobs) db.jobs

/-- The planning step of a poll. -/
def createBackfillJobs (limit chunkSize : ℕ) (now : ℤ) (db : ValuationTables) :
    Except Raised ValuationTables :=
  match db.latestBusinessDate with
  | none => .ok db
  | some latest =>
    let states := statesNeedingBackfill collate db latest limit
    (bulkUpdateStates (buildNoHistoryNormalizationUpdates (statesWithoutHistory db states) latest)
      now db.states).map fun updated =>
        { db with
          states := updated.1
          jobs := plannedJobs correlationId db states latest chunkSize }

/-- The jobs a claim may take: pending ones of the latest epoch of their scope. -/
def ValuationTables.eligible (job : ValuationJob) : Bool :=
  job.status = .pending && latestEpoch db.jobs job = some job.epoch

variable (limit : ℕ)

/-- `find_and_claim_eligible_jobs`: the scopes it takes. -/
def eligibleScopes (maxInFlight : Option ℕ) (db : ValuationTables) : List JobScope :=
  let room := match maxInFlight with
    | none => limit
    | some most => min limit (most - db.jobs.countP (·.status = .processing))
  (((db.jobs.filter db.eligible).insertionSort fun a b =>
    toLex (collate a.portfolioId, toLex (collate a.securityId, toLex (a.valuationDate, -a.epoch))) ≤
      toLex (collate b.portfolioId, toLex (collate b.securityId, toLex (b.valuationDate,
        -b.epoch)))).take room).map (·.scope)

/-- `find_and_claim_eligible_jobs`. -/
def claimEligibleJobs (maxInFlight : Option ℕ) (db : ValuationTables) : ValuationTables :=
  let scopes := eligibleScopes collate limit maxInFlight db
  { db with
    jobs := updateWhere (fun job => scopes.contains job.scope && job.status = .pending)
      (fun job => { job with status := .processing, requeueRequested := false }) db.jobs
    claims := db.claims ++ scopes }

/-- The completion of a claimed job: the snapshot of its date has the quantity of the history, and
the job is complete unless it was requested again. -/
def completeJob (job : ValuationJob) : ValuationTables :=
  match db.latestHistory job.key job.epoch job.valuationDate with
  | none => db
  | some row =>
    { db with
      snapshots := db.snapshots.filter (·.scope ≠ job.scope) ++
        [⟨job.portfolioId, job.securityId, job.valuationDate, job.epoch, row.quantity⟩]
      jobs := updateWhere (fun j => j.scope = job.scope && j.status = .processing)
        (fun j => { j with
          status := if j.requeueRequested then .pending else .complete
          requeueRequested := false })
        db.jobs }

/-- Every claimed job completes. -/
def completeJobs : ValuationTables :=
  (db.jobs.filter fun job => job.status = .processing && db.claims.contains job.scope).foldl
    completeJob db

/-- The watermarks move over contiguous snapshots; both updates are planned from the rows before the
step. -/
def advanceWatermarks (now : ℤ) (db : ValuationTables) : Except Raised ValuationTables :=
  match db.latestBusinessDate with
  | none => .ok db
  | some latest => do
    let lagging := laggingStates collate latest limit db.states
    let terminal := terminalReprocessingStates collate latest limit db.states
    let (rows, _) ← bulkUpdateStates (buildTerminalReprocessingUpdates terminal) now db.states
    let dates := fun k => ((lagging.find? fun state => state.key = k).bind
      (db.contiguousSnapshotDate latest))
    let (rows, _) ← bulkUpdateStates (buildWatermarkAdvanceUpdates lagging dates latest) now rows
    .ok { db with states := rows }

/-- The settings and the clock of one poll. -/
structure Poll where
  batchSize : ℕ
  chunkSize : ℕ
  claimLimits : List ℕ
  maxInFlight : Option ℕ
  now : ℤ

/-- One poll of the scheduler, with the completion of what it claims. A step that raises is rolled
back and ends the poll. -/
def poll (p : Poll) (db : ValuationTables) : ValuationTables :=
  match createBackfillJobs collate correlationId p.batchSize p.chunkSize p.now db with
  | .error _ => db
  | .ok planned =>
    let claimed := p.claimLimits.foldl (fun db limit => claimEligibleJobs collate limit
      p.maxInFlight db) planned
    let completed := completeJobs claimed
    match advanceWatermarks collate p.batchSize p.now completed with
    | .error _ => completed
    | .ok advanced => advanced

/-- A run of the scheduler. -/
def polls (ps : List Poll) (db : ValuationTables) : ValuationTables :=
  ps.foldl (fun db p => poll collate correlationId p db) db

end Steps

/-! ## Resets -/

/-- `find_portfolios_holding_security_on_date`. -/
def portfoliosHoldingOnDate (db : ValuationTables) (securityId : String) (date : ℤ) : List String :=
  (db.states.filter fun state => state.securityId = securityId &&
    match db.latestHistory state.key state.epoch date with
    | none => false
    | some row => row.quantity ≠ 0).map (·.portfolioId)

/-- `find_portfolios_first_holding_security_after_date`. -/
def portfoliosFirstHoldingAfterDate (db : ValuationTables) (securityId : String) (date : ℤ) :
    List String :=
  (db.states.filter fun state => state.securityId = securityId &&
    (db.historyOf state.key state.epoch).any fun row =>
      date < row.positionDate ∧ row.quantity ≠ 0).map (·.portfolioId)

/-- `_reset_impacted_watermarks`: the watermarks of the portfolios that hold the security on the
date or later move to the day before it. -/
def resetImpactedWatermarks (securityId : String) (earliest now : ℤ) (db : ValuationTables) :
    ValuationTables :=
  let affected := portfoliosHoldingOnDate db securityId earliest ++
    portfoliosFirstHoldingAfterDate db securityId earliest
  { db with
    states := updateWatermarksIfOlder (affected.map (·, securityId)) (earliest - 1) false none now
      db.states }

end LotusCore.Valuation
