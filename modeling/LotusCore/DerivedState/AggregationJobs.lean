import LotusCore.Errors
import LotusCore.Exec.Machine
import Mathlib.Data.List.MinMax

/-!
# Aggregation jobs

One job row asks for the portfolio-day aggregate of one date. Writers stage it, workers claim it
under a lease, and what its sources are is read from the daily snapshots and the position
time-series of the portfolio.

* `stageAggregationJobs`, `restageAggregationJobsInCarryForwardInterval`: the writers.
* `claimEligibleJob`, `completeOrRequeueJob`, `failOrRequeueJob`, `recoverExpiredJobLease`: the
  workers.
* `PortfolioAggregationJob.restaged_status`, `releaseOrRequeueJob_cases`: what they do to the row.
-/

namespace LotusCore.DerivedState

inductive AggregationJobStatus
  | pending | processing | complete | failed
  deriving DecidableEq, Repr

structure AggregationJobLease where
  owner : String
  token : String
  expiresAt : ℤ
  deriving DecidableEq, Repr

/-- The row of one (tenant, portfolio, date). -/
structure PortfolioAggregationJob where
  status : AggregationJobStatus
  targetEpoch : ℤ
  sourceRevision : ℕ
  attemptCount : ℕ
  failureReason : Option String
  correlationId : Option String
  lease : Option AggregationJobLease
  deriving DecidableEq, Repr

/-- What a claim hands to its worker, as far as the worker hands it back. -/
structure ClaimedAggregationJob where
  targetEpoch : ℤ
  sourceRevision : ℕ
  leaseToken : String
  deriving DecidableEq, Repr

/-- The columns of a snapshot, or of a position time-series row, that the job queries read. -/
structure StampedRow where
  securityId : String
  date : ℤ
  epoch : ℤ
  updatedAt : ℤ
  deriving DecidableEq, Repr

def aggregationReprocessRequested : String := "REPROCESS_REQUESTED"

/-! ### The sources of a date -/

section Sources

variable (date : ℤ) (snapshots timeseries : List StampedRow)

/-- A snapshot of the same security up to the date that comes after the given one. -/
def NewerSnapshot (newer snapshot : StampedRow) : Prop :=
  newer.securityId = snapshot.securityId ∧ newer.date ≤ date ∧
    (snapshot.date < newer.date ∨ newer.date = snapshot.date ∧ snapshot.epoch < newer.epoch)
  deriving Decidable

variable (snapshot : StampedRow)

/-- The snapshot the date's aggregate takes for its security. -/
def AuthoritativeSnapshot : Prop :=
  snapshot.date ≤ date ∧ ¬ ∃ newer ∈ snapshots, NewerSnapshot date newer snapshot
  deriving Decidable

/-- The snapshot's time-series row has been written, whenever that was. -/
def HasTimeseries : Prop :=
  ∃ row ∈ timeseries, row.securityId = snapshot.securityId ∧ row.date = snapshot.date ∧
    row.epoch = snapshot.epoch
  deriving Decidable

/-- The snapshot's time-series row has been written at or after the snapshot's own update. -/
def MaterializedSnapshot : Prop :=
  ∃ row ∈ timeseries, row.securityId = snapshot.securityId ∧ row.date = snapshot.date ∧
    row.epoch = snapshot.epoch ∧ snapshot.updatedAt ≤ row.updatedAt
  deriving Decidable

def AuthoritativeSnapshotExists : Prop :=
  ∃ snapshot ∈ snapshots, AuthoritativeSnapshot date snapshots snapshot
  deriving Decidable

def MissingPositionTimeseriesExists : Prop :=
  ∃ snapshot ∈ snapshots, AuthoritativeSnapshot date snapshots snapshot ∧
    ¬ HasTimeseries timeseries snapshot
  deriving Decidable

def UnmaterializedAuthoritativeSnapshotExists (targetEpoch : ℤ) : Prop :=
  ∃ snapshot ∈ snapshots, AuthoritativeSnapshot date snapshots snapshot ∧
    (targetEpoch < snapshot.epoch ∨ ¬ MaterializedSnapshot timeseries snapshot)
  deriving Decidable

/-- The latest epoch among the date's authoritative snapshots. -/
def authoritativeTargetEpoch : Option ℤ :=
  ((snapshots.filter (AuthoritativeSnapshot date snapshots ·)).map StampedRow.epoch).max?

/-- **Every authoritative snapshot of the date is materialised at or after its own update.** -/
def SourcesMaterialized : Prop :=
  ∀ snapshot ∈ snapshots, AuthoritativeSnapshot date snapshots snapshot →
    MaterializedSnapshot timeseries snapshot

theorem sourcesMaterialized_of_not_unmaterialized {targetEpoch : ℤ}
    (h : ¬ UnmaterializedAuthoritativeSnapshotExists date snapshots timeseries targetEpoch) :
    SourcesMaterialized date snapshots timeseries := by
  intro snapshot hmem hauthoritative
  by_contra hnot
  exact h ⟨snapshot, hmem, hauthoritative, Or.inr hnot⟩

end Sources

/-! ### The writers -/

namespace PortfolioAggregationJob

/-- The columns a staging sets on a row that exists. -/
def restaged (job : PortfolioAggregationJob) (targetEpoch : ℤ) (correlationId : Option String) :
    PortfolioAggregationJob :=
  { job with
    targetEpoch := max job.targetEpoch targetEpoch
    sourceRevision := job.sourceRevision + 1
    status := if job.status = .processing then job.status else .pending
    failureReason :=
      if job.status = .processing then some aggregationReprocessRequested else none
    correlationId := correlationId }

/-- A row that has never been claimed. -/
def new (targetEpoch : ℤ) (correlationId : Option String) : PortfolioAggregationJob where
  status := .pending
  targetEpoch := targetEpoch
  sourceRevision := 1
  attemptCount := 0
  failureReason := none
  correlationId := correlationId
  lease := none

variable {job : PortfolioAggregationJob} {targetEpoch : ℤ} {correlationId : Option String}

theorem restaged_status : (job.restaged targetEpoch correlationId).status =
    if job.status = .processing then .processing else .pending := by
  unfold restaged
  split_ifs with h
  · exact h
  · rfl

theorem restaged_failureReason (h : job.status = .processing) :
    (job.restaged targetEpoch correlationId).failureReason =
      some aggregationReprocessRequested := by
  simp [restaged, h]

end PortfolioAggregationJob

/-- The staging of some dates, as the row of `date` sees it. -/
def stageAggregationJobs (date : ℤ) (job : Option PortfolioAggregationJob) (dates : List ℤ)
    (targetEpoch : ℤ) (correlationId : Option String) :
    Except Raised (Option PortfolioAggregationJob) :=
  if dates = [] then
    .ok job
  else if targetEpoch < 0 then
    .error (.valueError "Aggregation target epoch cannot be negative.")
  else if date ∈ dates then
    match job with
    | none => .ok (some (.new targetEpoch correlationId))
    | some job =>
      -- a pending job of the same epoch and correlation is left as it is
      if job.targetEpoch ≠ targetEpoch ∨ job.status ≠ .pending ∨
          job.correlationId.getD "" ≠ correlationId.getD "" then
        .ok (some (job.restaged targetEpoch correlationId))
      else
        .ok (some job)
  else
    .ok job

/-- The dates a carry-forward restaging is about. -/
def InCarryForwardInterval (startDate : ℤ) (endDateExclusive : Option ℤ) (excluded : List ℤ)
    (date : ℤ) : Prop :=
  startDate ≤ date ∧ (∀ endDate ∈ endDateExclusive, date < endDate) ∧ date ∉ excluded
  deriving Decidable

/-- The restaging of the days that carry a changed position, as the row of `date` sees it. -/
def restageAggregationJobsInCarryForwardInterval (date : ℤ)
    (job : Option PortfolioAggregationJob) (startDate : ℤ) (endDateExclusive : Option ℤ)
    (excluded : List ℤ) (targetEpoch : ℤ) (correlationId : Option String) :
    Except Raised (Option PortfolioAggregationJob) :=
  if targetEpoch < 0 then
    .error (.valueError "Aggregation target epoch cannot be negative.")
  else if ∃ endDate ∈ endDateExclusive, endDate ≤ startDate then
    .ok job
  else if InCarryForwardInterval startDate endDateExclusive excluded date then
    -- without a correlation of its own the restaging keeps the row's
    .ok (job.map fun job => job.restaged targetEpoch (correlationId <|> job.correlationId))
  else
    .ok job

/-! ### The workers -/

section Workers

variable (date : ℤ) (snapshots timeseries : List StampedRow) (job : PortfolioAggregationJob)

/-- A pending job whose sources are all there and up to date. -/
def PortfolioAggregationJob.Eligible (targetEpoch : ℤ) : Prop :=
  job.status = .pending ∧ AuthoritativeSnapshotExists date snapshots ∧
    ¬ MissingPositionTimeseriesExists date snapshots timeseries ∧
      ¬ UnmaterializedAuthoritativeSnapshotExists date snapshots timeseries targetEpoch
  deriving Decidable

/-- The columns a claim sets. -/
def PortfolioAggregationJob.claimed (targetEpoch : ℤ) (lease : AggregationJobLease)
    : PortfolioAggregationJob :=
  { job with
    status := .processing
    attemptCount := job.attemptCount + 1
    targetEpoch := max job.targetEpoch targetEpoch
    sourceRevision :=
      if job.targetEpoch < targetEpoch then job.sourceRevision + 1 else job.sourceRevision
    lease := some lease }

/-- The claim of one job; nothing is claimed where the job is not eligible. -/
def claimEligibleJob (lease : AggregationJobLease) : Option PortfolioAggregationJob :=
  match authoritativeTargetEpoch date snapshots with
  | none => none
  | some targetEpoch =>
    if job.Eligible date snapshots timeseries targetEpoch then
      some (job.claimed targetEpoch lease)
    else
      none

def PortfolioAggregationJob.toClaim (token : String) :
    ClaimedAggregationJob where
  targetEpoch := job.targetEpoch
  sourceRevision := job.sourceRevision
  leaseToken := token

/-- The row is processed under a lease of this token that is live at `now`. -/
def PortfolioAggregationJob.OwnedClaim (token : String) (now : ℤ) : Prop :=
  job.status = .processing ∧ ∃ lease ∈ job.lease, lease.token = token ∧ now < lease.expiresAt
  deriving Decidable

/-- What makes a claim superseded: the row has moved on, or its sources have. -/
def PortfolioAggregationJob.Superseded (claim : ClaimedAggregationJob) : Prop :=
  job.targetEpoch ≠ claim.targetEpoch ∨ job.sourceRevision ≠ claim.sourceRevision ∨
    job.failureReason = some aggregationReprocessRequested ∨
      UnmaterializedAuthoritativeSnapshotExists date snapshots timeseries claim.targetEpoch
  deriving Decidable

/-- What lets a claim be released: the row and its sources are as they were claimed. -/
def PortfolioAggregationJob.Releasable (claim : ClaimedAggregationJob) : Prop :=
  job.targetEpoch = claim.targetEpoch ∧ job.sourceRevision = claim.sourceRevision ∧
    ¬ UnmaterializedAuthoritativeSnapshotExists date snapshots timeseries claim.targetEpoch
  deriving Decidable

/-- The columns set where a row leaves its lease. -/
def PortfolioAggregationJob.released (status : AggregationJobStatus) (failureReason : Option String)
    : PortfolioAggregationJob :=
  { job with status := status, failureReason := failureReason, lease := none }

/-- The readings of the database clock by the three statements of one call. -/
structure ClockReadings where
  first : ℤ
  second : ℤ
  third : ℤ
  first_le : first ≤ second
  second_le : second ≤ third
  deriving DecidableEq, Repr

/-- How a call that ends a claim came out; `released` is `COMPLETE` or `FAILED`. -/
inductive AggregationJobDisposition
  | released | requeued | lostOwnership
  deriving DecidableEq, Repr

/-- The common body of the two calls that end a claim. -/
def releaseOrRequeueJob (status : AggregationJobStatus) (job : PortfolioAggregationJob)
    (claim : ClaimedAggregationJob) (clock : ClockReadings) :
    PortfolioAggregationJob × AggregationJobDisposition :=
  if job.OwnedClaim claim.leaseToken clock.first ∧
      job.Superseded date snapshots timeseries claim then
    (job.released .pending none, .requeued)
  else if job.OwnedClaim claim.leaseToken clock.second ∧
      job.Releasable date snapshots timeseries claim then
    (job.released status none, .released)
  else if job.OwnedClaim claim.leaseToken clock.third ∧
      job.Superseded date snapshots timeseries claim then
    (job.released .pending none, .requeued)
  else
    (job, .lostOwnership)

def completeOrRequeueJob := releaseOrRequeueJob date snapshots timeseries .complete

def failOrRequeueJob := releaseOrRequeueJob date snapshots timeseries .failed

end Workers

def PortfolioAggregationJob.Expired (job : PortfolioAggregationJob) (now : ℤ) : Prop :=
  job.status = .processing ∧ ∃ lease ∈ job.lease, lease.expiresAt ≤ now
  deriving Decidable

def recoverExpiredJobLease (job : PortfolioAggregationJob) (maxAttempts : ℕ) (now : ℤ) :
    PortfolioAggregationJob :=
  if job.Expired now then
    if maxAttempts ≤ job.attemptCount ∧
        job.failureReason ≠ some aggregationReprocessRequested then
      job.released .failed (some "Aggregation job lease expired after max attempts")
    else
      job.released .pending none
  else
    job

/-! ### What the calls do to the row -/

section Calls

variable {date : ℤ} {snapshots timeseries : List StampedRow} {job : PortfolioAggregationJob}

theorem PortfolioAggregationJob.OwnedClaim.earlier {token : String} {now later : ℤ}
    (h : job.OwnedClaim token later) (hle : now ≤ later) : job.OwnedClaim token now := by
  obtain ⟨hstatus, lease, hlease, htoken, hlive⟩ := h
  exact ⟨hstatus, lease, hlease, htoken, by omega⟩

theorem PortfolioAggregationJob.releasable_of_not_superseded {claim : ClaimedAggregationJob}
    (h : ¬ job.Superseded date snapshots timeseries claim) :
    job.Releasable date snapshots timeseries claim := by
  simp only [PortfolioAggregationJob.Superseded, not_or, not_not] at h
  exact ⟨h.1, h.2.1, h.2.2.2⟩

variable (date snapshots timeseries job) in
/-- A call that ends a claim requeues a superseded claim, releases one that is not, and does
nothing without a live lease. -/
theorem releaseOrRequeueJob_cases (status : AggregationJobStatus) (claim : ClaimedAggregationJob)
    (clock : ClockReadings) :
    (job.OwnedClaim claim.leaseToken clock.first ∧
        job.Superseded date snapshots timeseries claim ∧
        (releaseOrRequeueJob date snapshots timeseries status job claim clock).1 =
          job.released .pending none) ∨
      (job.OwnedClaim claim.leaseToken clock.second ∧
        ¬ job.Superseded date snapshots timeseries claim ∧
        (releaseOrRequeueJob date snapshots timeseries status job claim clock).1 =
          job.released status none) ∨
      (releaseOrRequeueJob date snapshots timeseries status job claim clock).1 = job := by
  unfold releaseOrRequeueJob
  by_cases hsuperseded : job.Superseded date snapshots timeseries claim
  · by_cases howned : job.OwnedClaim claim.leaseToken clock.first
    · exact Or.inl ⟨howned, hsuperseded, by rw [if_pos ⟨howned, hsuperseded⟩]⟩
    · -- a lease that has expired at the first statement has expired at the others
      have hsecond : ¬ job.OwnedClaim claim.leaseToken clock.second :=
        fun h => howned (h.earlier clock.first_le)
      have hthird : ¬ job.OwnedClaim claim.leaseToken clock.third :=
        fun h => hsecond (h.earlier clock.second_le)
      refine Or.inr (Or.inr ?_)
      simp only [howned, hsecond, hthird, false_and, if_false]
  · have hreleasable := job.releasable_of_not_superseded hsuperseded
    by_cases howned : job.OwnedClaim claim.leaseToken clock.second
    · refine Or.inr (Or.inl ⟨howned, hsuperseded, ?_⟩)
      simp only [hsuperseded, howned, hreleasable, and_false, and_true, if_false, if_true]
    · refine Or.inr (Or.inr ?_)
      simp only [hsuperseded, howned, and_false, false_and, if_false]

/-- A call whose lease is not the row's, or has expired, changes nothing. -/
theorem releaseOrRequeueJob_of_not_owned (status : AggregationJobStatus)
    {claim : ClaimedAggregationJob} {clock : ClockReadings}
    (h : ¬ job.OwnedClaim claim.leaseToken clock.first) :
    (releaseOrRequeueJob date snapshots timeseries status job claim clock).1 = job := by
  rcases releaseOrRequeueJob_cases date snapshots timeseries job status claim clock with
    hcase | hcase | hcase
  · exact absurd hcase.1 h
  · exact absurd (hcase.1.earlier clock.first_le) h
  · exact hcase

variable (job) in
theorem recoverExpiredJobLease_cases (maxAttempts : ℕ) (now : ℤ) :
    recoverExpiredJobLease job maxAttempts now = job ∨
      job.status = .processing ∧
        (recoverExpiredJobLease job maxAttempts now = job.released .pending none ∨
          job.failureReason ≠ some aggregationReprocessRequested ∧
            recoverExpiredJobLease job maxAttempts now =
              job.released .failed (some "Aggregation job lease expired after max attempts")) := by
  unfold recoverExpiredJobLease
  by_cases hexpired : job.Expired now
  · rw [if_pos hexpired]
    by_cases hfailed : maxAttempts ≤ job.attemptCount ∧
        job.failureReason ≠ some aggregationReprocessRequested
    · rw [if_pos hfailed]
      exact Or.inr ⟨hexpired.1, Or.inr ⟨hfailed.2, rfl⟩⟩
    · rw [if_neg hfailed]
      exact Or.inr ⟨hexpired.1, Or.inl rfl⟩
  · rw [if_neg hexpired]
    exact Or.inl rfl

end Calls

end LotusCore.DerivedState
