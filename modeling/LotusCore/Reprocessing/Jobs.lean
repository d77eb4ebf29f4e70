import LotusCore.Data.Table
import LotusCore.Transaction.Types
import Mathlib

/-!
# Replay jobs

The jobs of type `RESET_WATERMARKS` in `reprocessing_jobs`, with well-formed payloads: a security
and the earliest impacted date. A partial unique index allows one pending job for each security.
Dates and times are integers.

* `stageResetWatermarksJob`: create a pending job or coalesce with the one there is.
* `findAndClaimJobs`, `updateJobStatus`, `renewLease`, `requeueOwnedJob`: the life of a claim.
* `findAndResetStaleJobs`: recovery of claims whose lease has run out.
-/

namespace LotusCore.Reprocessing

open Table

inductive JobStatus
  | pending
  | processing
  | complete
  | failed
  deriving DecidableEq, Repr

/-- A row of `reprocessing_jobs`. -/
structure Job where
  id : ℕ
  securityId : String
  earliestImpactedDate : ℤ
  createdAt : ℤ
  status : JobStatus := .pending
  attemptCount : ℕ := 0
  leaseOwner : Option String := none
  leaseToken : Option String := none
  leaseExpiresAt : Option ℤ := none
  failureReason : Option String := none
  deriving DecidableEq, Repr

/-- The rows of `reprocessing_jobs` and the next id of its sequence. -/
structure JobTable where
  jobs : List Job
  nextId : ℕ
  deriving DecidableEq, Repr

/-! ## Staging -/

def pendingFor (securityId : String) (j : Job) : Bool :=
  j.status = .pending && j.securityId = securityId

/-- What the conflict clause of the upsert sets. -/
def Job.coalesce (earliestImpactedDate : ℤ) (attemptCount : ℕ) (j : Job) : Job :=
  { j with
    earliestImpactedDate := min j.earliestImpactedDate earliestImpactedDate
    attemptCount := max j.attemptCount attemptCount }

/-- `ResetWatermarksStageOutcome`. -/
inductive StageOutcome
  | created
  | coalescedPending
  deriving DecidableEq, Repr

def stageResetWatermarksJob (securityId : String) (earliestImpactedDate : ℤ) (attemptCount : ℕ)
    (now : ℤ) (table : JobTable) : JobTable × StageOutcome :=
  if table.jobs.any (pendingFor securityId) then
    ({ table with
        jobs := updateWhere (pendingFor securityId) (Job.coalesce earliestImpactedDate attemptCount)
          table.jobs },
      .coalescedPending)
  else
    ({ jobs := table.jobs ++
        [{ id := table.nextId, securityId := securityId,
           earliestImpactedDate := earliestImpactedDate, createdAt := now,
           attemptCount := attemptCount }]
       nextId := table.nextId + 1 },
      .created)

/-! ## Claims -/

variable (j : Job)

/-- The order in which duplicates are kept and jobs are claimed. -/
def Job.priority : ℤ ×ₗ ℤ ×ₗ ℕ := toLex (j.earliestImpactedDate, toLex (j.createdAt, j.id))

/-- `normalize_pending_reset_watermarks_duplicates` on well-formed rows: of the pending jobs of a
security the first is kept, with the earliest date and the most attempts of all. -/
def normalizePendingDuplicates (jobs : List Job) : List Job :=
  jobs.filterMap fun j =>
    if j.status ≠ .pending then some j
    else
      let duplicates := jobs.filter (pendingFor j.securityId)
      if duplicates.any fun k => k.priority < j.priority then none
      else
        some { j with
          earliestImpactedDate := (duplicates.map Job.earliestImpactedDate).foldl min
            j.earliestImpactedDate
          attemptCount := (duplicates.map Job.attemptCount).foldl max j.attemptCount }

def claimCandidates (batchSize : ℕ) (excluded locked : List ℕ) (jobs : List Job) : List Job :=
  ((jobs.filter fun j => j.status = .pending && !excluded.contains j.id &&
    !locked.contains j.id).insertionSort fun a b => a.priority ≤ b.priority).take batchSize

def Job.claim (leaseOwner leaseToken : String) (expiry : ℤ) (j : Job) : Job :=
  { j with
    status := .processing
    attemptCount := j.attemptCount + 1
    leaseOwner := some leaseOwner
    leaseToken := some leaseToken
    leaseExpiresAt := some expiry }

/-- `find_and_claim_jobs`: the claimed rows in the order of their priority, and the table. -/
def findAndClaimJobs (batchSize : ℕ) (leaseOwner : String) (leaseDurationSeconds : ℤ)
    (excluded : List ℕ) (normalize : Bool) (leaseToken : String) (locked : List ℕ) (clock : ℤ)
    (table : JobTable) : Except Raised (List Job × JobTable) :=
  let owner := strip leaseOwner
  if owner = "" ∨ 128 < owner.length then
    .error (.valueError "reprocessing lease owner must contain 1 to 128 characters")
  else if leaseDurationSeconds < 1 then
    .error (.valueError "reprocessing lease duration must be positive")
  else
    let jobs := if normalize then normalizePendingDuplicates table.jobs else table.jobs
    let candidates := claimCandidates batchSize excluded locked jobs
    let claimed := Job.claim owner leaseToken (clock + leaseDurationSeconds)
    .ok (candidates.map claimed,
      { table with
        jobs := updateWhere (fun j => candidates.any fun c => c.id = j.id) claimed jobs })

/-! ## Owned transitions -/

/-- `ReprocessingJobTransitionOutcome`. -/
inductive TransitionOutcome
  | applied
  | requeued
  | coalescedPending
  | leaseExpired
  | claimMismatch
  | notProcessing
  | notFound
  | raced
  deriving DecidableEq, Repr

variable (clock : ℤ)

def Job.leaseLive (j : Job) : Bool :=
  match j.leaseExpiresAt with
  | none => false
  | some expiry => clock < expiry

def Job.leaseExpired (j : Job) : Bool :=
  match j.leaseExpiresAt with
  | none => false
  | some expiry => expiry ≤ clock

variable (jobId : ℕ)

/-- The exact claim is still live. -/
def Job.ownedBy (leaseToken : String) (clock : ℤ) (j : Job) : Bool :=
  j.id = jobId && j.status = .processing && j.leaseToken = some leaseToken && j.leaseLive clock

def classifyOwnedTransitionFailure (leaseToken : String) (clock : ℤ) (jobs : List Job)
    : TransitionOutcome :=
  match row? Job.id jobs jobId with
  | none => .notFound
  | some j =>
    if j.status ≠ .processing then .notProcessing
    else if j.leaseToken ≠ some leaseToken then .claimMismatch
    else if j.leaseExpired clock then .leaseExpired
    else .raced

/-- What an owned transition sets. -/
def Job.leave (status : JobStatus) (failureReason : Option String) (j : Job) : Job :=
  { j with
    status := status
    leaseOwner := none
    leaseToken := none
    leaseExpiresAt := none
    failureReason := match failureReason with
      | none => j.failureReason
      | some reason => some reason }

def applyOwnedTransition (status : JobStatus) (failureReason : Option String) (leaseToken : String)
    (clock : ℤ) (table : JobTable) : TransitionOutcome × JobTable :=
  if table.jobs.any (Job.ownedBy jobId leaseToken clock) then
    (.applied, { table with
      jobs := updateWhere (Job.ownedBy jobId leaseToken clock) (Job.leave status failureReason)
        table.jobs })
  else (classifyOwnedTransitionFailure jobId leaseToken clock table.jobs, table)

def blankReason : Option String → Bool
  | none => true
  | some reason => strip reason = ""

def updateJobStatus (status : JobStatus) (leaseToken : String) (failureReason : Option String)
    (clock : ℤ) (table : JobTable) : Except Raised (TransitionOutcome × JobTable) :=
  if leaseToken = "" then .error (.valueError "reprocessing lease token is required")
  else if status ≠ .complete ∧ status ≠ .failed then
    .error (.valueError "reprocessing owned transition status is invalid")
  else if failureReason.isSome ∧ status ≠ .failed then
    .error (.valueError "reprocessing failure reason requires FAILED status")
  else if status = .failed ∧ blankReason failureReason then
    .error (.valueError "reprocessing FAILED transition requires a failure reason")
  else .ok (applyOwnedTransition jobId status failureReason leaseToken clock table)

def renewLease (leaseToken : String) (leaseDurationSeconds clock : ℤ) (table : JobTable)
    : Except Raised (TransitionOutcome × JobTable) :=
  if leaseToken = "" then .error (.valueError "reprocessing lease token is required")
  else if leaseDurationSeconds ≤ 0 then
    .error (.valueError "reprocessing lease duration must be positive")
  else if table.jobs.any (Job.ownedBy jobId leaseToken clock) then
    .ok (.applied, { table with
      jobs := updateWhere (Job.ownedBy jobId leaseToken clock)
        (fun j => { j with leaseExpiresAt := some (clock + leaseDurationSeconds) }) table.jobs })
  else .ok (classifyOwnedTransitionFailure jobId leaseToken clock table.jobs, table)

/-- The other jobs of the security that are not ended. -/
def replaySiblings (jobs : List Job) : List Job :=
  jobs.filter fun k => k.id ≠ j.id && k.securityId = j.securityId &&
    (k.status = .pending || k.status = .processing)

/-- `requeue_owned_effective_dated_job`. -/
def requeueOwnedJob (leaseToken : String) (clock : ℤ) (table : JobTable) :
    Except Raised (TransitionOutcome × JobTable) :=
  if leaseToken = "" then .error (.valueError "reprocessing lease token is required")
  else
    match row? Job.id table.jobs jobId with
    | none => .ok (.notFound, table)
    | some j =>
      if !j.ownedBy jobId leaseToken clock then
        .ok (classifyOwnedTransitionFailure jobId leaseToken clock table.jobs, table)
      else
        let siblings := replaySiblings j table.jobs
        if siblings = [] then
          .ok (.requeued, (applyOwnedTransition jobId .pending none leaseToken clock table).2)
        else
          let date := (siblings.map Job.earliestImpactedDate).foldl min j.earliestImpactedDate
          let attempts := (siblings.map Job.attemptCount).foldl max j.attemptCount
          let staged := (stageResetWatermarksJob j.securityId date attempts clock table).1
          .ok (.coalescedPending,
            (applyOwnedTransition jobId .complete none leaseToken clock staged).2)

/-! ## Stale claims -/

/-- A claim whose lease has run out. -/
def Job.stale (j : Job) : Bool := j.status = .processing && j.leaseExpired clock

/-- The order in which stale claims are recovered. -/
def Job.staleKey : WithBot ℤ ×ₗ ℕ := toLex (j.leaseExpiresAt, j.id)

/-- The pages of `_claim_stale_job_cohort`: the first one with a row that is not locked. -/
def firstCohort (limit : ℕ) (locked : List ℕ) : ℕ → List Job → List Job
  | 0, _ => []
  | pages + 1, jobs =>
    match (jobs.take limit).filter fun j => !locked.contains j.id with
    | [] => firstCohort limit locked pages (jobs.drop limit)
    | cohort => cohort

/-- `POSTGRES_STATEMENT_ROW_LIMIT`. -/
def statementRowLimit : ℕ := 1000

/-- `_claim_stale_job_cohort`. -/
def staleCohort (locked : List ℕ) (clock : ℤ) (jobs : List Job) : List Job :=
  firstCohort statementRowLimit locked jobs.length
    ((jobs.filter (Job.stale clock)).insertionSort fun a b => a.staleKey ≤ b.staleKey)

/-- One round of `_recover_retryable_stale_coalesced_jobs`: the claim is looked up again, staged,
and completed. -/
def recoverStaleJob (table : JobTable) (row : Job) : JobTable :=
  match table.jobs.find? fun j =>
      j.id = row.id && j.leaseToken = row.leaseToken && j.stale clock with
  | none => table
  | some j =>
    let staged :=
      (stageResetWatermarksJob j.securityId j.earliestImpactedDate j.attemptCount clock table).1
    { staged with
      jobs := updateWhere (fun k => k.id = row.id && k.stale clock)
        (Job.leave .complete (some "Coalesced into pending security replay during stale recovery"))
        staged.jobs }

/-- `_mark_over_limit_stale_jobs_failed`. -/
def failOverLimit (ids : List ℕ) (table : JobTable) : JobTable :=
  { table with
    jobs := updateWhere (fun j => ids.contains j.id && j.stale clock)
      (Job.leave .failed (some "Stale processing timeout exceeded max attempts")) table.jobs }

def overLimitStaleJobIds (maxAttempts : ℕ) (cohort : List Job) : List ℕ :=
  (cohort.filter fun j => maxAttempts ≤ j.attemptCount).map Job.id

/-- `find_and_reset_stale_jobs`. Every job of the modelled type that is within the limit is
coalesced, so none is left for the plain reset. -/
def findAndResetStaleJobs (maxAttempts : ℕ) (locked : List ℕ) (clock : ℤ) (table : JobTable) :
    JobTable :=
  let cohort := staleCohort locked clock table.jobs
  failOverLimit clock (overLimitStaleJobIds maxAttempts cohort)
    ((cohort.filter fun j => j.attemptCount < maxAttempts).foldl (recoverStaleJob clock) table)

end LotusCore.Reprocessing
