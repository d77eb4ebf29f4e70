import LotusCore.Data.Table
import LotusCore.DerivedState.AggregationJobs

/-!
# Aggregation jobs under any interleaving

The job of one date, with the writers that stage it, the workers that hold leases on it, the
tables its sources are read from and the clock.

* `aggregation`: the machine; each call is one step.
* `PortfolioAggregationJob.Change`: all that one step can do to the row.
* `reprocess_kept`: a row that was staged while it was processed stays marked until it is pending.
* **`aggregation_never_completes_stale`**: a job completes on current sources only, and no staging
  is lost.
-/

namespace LotusCore.DerivedState

open Exec

/-- The row of one date, what it is computed from, the clock and the claims handed out so far. -/
structure AggregationState where
  now : ℤ
  job : Option PortfolioAggregationJob
  snapshots : List StampedRow
  timeseries : List StampedRow
  claims : List ClaimedAggregationJob
  deriving DecidableEq, Repr

/-- The calls on the job and the writes to its sources. -/
inductive AggregationStep
  | stage (dates : List ℤ) (targetEpoch : ℤ) (correlationId : Option String)
  | restage (startDate : ℤ) (endDateExclusive : Option ℤ) (excluded : List ℤ) (targetEpoch : ℤ)
      (correlationId : Option String)
  | claim (owner token : String) (durationSeconds : ℤ)
  | complete (claim : ClaimedAggregationJob) (clock : ClockReadings)
  | fail (claim : ClaimedAggregationJob) (clock : ClockReadings)
  | recover (maxAttempts : ℕ)
  | writeSnapshots (rows : List StampedRow)
  | writeTimeseries (rows : List StampedRow)
  | tick (now : ℤ)

namespace AggregationState

/-- A staging that raises is rolled back. -/
def staged (s : AggregationState) (job : Except Raised (Option PortfolioAggregationJob)) :
    AggregationState :=
  match job with
  | .ok job => { s with job := job }
  | .error _ => s

/-- A call of a worker that was handed the claim, which reads the clock as it goes. -/
def called (s : AggregationState) (claim : ClaimedAggregationJob) (clock : ClockReadings)
    (call : PortfolioAggregationJob → PortfolioAggregationJob × AggregationJobDisposition) :
    Option AggregationState :=
  if claim ∈ s.claims ∧ s.now ≤ clock.first then
    some { s with job := s.job.map fun job => (call job).1, now := clock.third }
  else
    none

end AggregationState

def aggregationStep (date : ℤ) (s : AggregationState) : AggregationStep → Option AggregationState
  | .stage dates targetEpoch correlationId =>
    some (s.staged (stageAggregationJobs date s.job dates targetEpoch correlationId))
  | .restage startDate endDateExclusive excluded targetEpoch correlationId =>
    some (s.staged (restageAggregationJobsInCarryForwardInterval date s.job startDate
      endDateExclusive excluded targetEpoch correlationId))
  | .claim owner token durationSeconds =>
    -- the scheduler draws a new token for every claim
    if token ∈ s.claims.map ClaimedAggregationJob.leaseToken then
      none
    else
      s.job.bind fun job =>
        (claimEligibleJob date s.snapshots s.timeseries job
          ⟨owner, token, s.now + durationSeconds⟩).map fun job =>
            { s with job := some job, claims := job.toClaim token :: s.claims }
  | .complete claim clock =>
    s.called claim clock fun job =>
      completeOrRequeueJob date s.snapshots s.timeseries job claim clock
  | .fail claim clock =>
    s.called claim clock fun job => failOrRequeueJob date s.snapshots s.timeseries job claim clock
  | .recover maxAttempts =>
    some { s with job := s.job.map fun job => recoverExpiredJobLease job maxAttempts s.now }
  | .writeSnapshots rows => some { s with snapshots := rows }
  | .writeTimeseries rows => some { s with timeseries := rows }
  | .tick now => if s.now ≤ now then some { s with now := now } else none

/-- The job of `date`, which no one has staged at first. -/
def aggregation (date : ℤ) : Machine AggregationState AggregationStep where
  init s := s.job = none ∧ s.claims = []
  step := aggregationStep date

def AggregationStep.Stages (date : ℤ) : AggregationStep → Prop
  | .stage dates targetEpoch _ => date ∈ dates ∧ 0 ≤ targetEpoch
  | .restage startDate endDateExclusive excluded targetEpoch _ =>
    InCarryForwardInterval startDate endDateExclusive excluded date ∧ 0 ≤ targetEpoch
  | _ => False

/-- The step is a call of the claim's worker that would end the job with the status. -/
def AggregationStep.Ends (claim : ClaimedAggregationJob) (clock : ClockReadings) :
    AggregationStep → AggregationJobStatus → Prop
  | .complete c r, status => c = claim ∧ r = clock ∧ status = .complete
  | .fail c r, status => c = claim ∧ r = clock ∧ status = .failed
  | _, _ => False

/-! ### What a step does to the row -/

/-- All that one step can do to the row. -/
inductive PortfolioAggregationJob.Change (date : ℤ) (s : AggregationState) (a : AggregationStep)
    (job : PortfolioAggregationJob) : PortfolioAggregationJob → Prop
  | same : Change date s a job job
  | staged (targetEpoch : ℤ) (correlationId : Option String) :
      Change date s a job (job.restaged targetEpoch correlationId)
  | claimed (pending : job.status = .pending) (targetEpoch : ℤ) (lease : AggregationJobLease) :
      Change date s a job (job.claimed targetEpoch lease)
  | requeued : Change date s a job (job.released .pending none)
  | released {claim : ClaimedAggregationJob} {clock : ClockReadings}
      {status : AggregationJobStatus} (call : a.Ends claim clock status)
      (handed : claim ∈ s.claims) (owned : job.OwnedClaim claim.leaseToken clock.second)
      (current : ¬ job.Superseded date s.snapshots s.timeseries claim) :
      Change date s a job (job.released status none)
  | abandoned (unmarked : job.failureReason ≠ some aggregationReprocessRequested) :
      Change date s a job
        (job.released .failed (some "Aggregation job lease expired after max attempts"))

/-- What one step does: a row stays a row, a new one is pending, and a new claim has a new token. -/
structure AggregationState.Moved (date : ℤ) (s : AggregationState) (a : AggregationStep)
    (t : AggregationState) : Prop where
  changed : ∀ job, s.job = some job → ∃ job', t.job = some job' ∧ job.Change date s a job'
  inserted : s.job = none → ∀ job, t.job = some job → job.status = .pending
  claims : t.claims = s.claims ∨
    ∃ claim, claim.leaseToken ∉ s.claims.map ClaimedAggregationJob.leaseToken ∧
      t.claims = claim :: s.claims

section Change

variable {date : ℤ} {s t : AggregationState} {a : AggregationStep} {claim : ClaimedAggregationJob}
  {clock : ClockReadings} {status : AggregationJobStatus}
  {job : PortfolioAggregationJob}

theorem claim_eq_some {owner token : String} {durationSeconds : ℤ}
    (h : aggregationStep date s (.claim owner token durationSeconds) = some t) :
    token ∉ s.claims.map ClaimedAggregationJob.leaseToken ∧
      (s.job.bind fun job =>
        (claimEligibleJob date s.snapshots s.timeseries job
          ⟨owner, token, s.now + durationSeconds⟩).map fun job =>
            { s with job := some job, claims := job.toClaim token :: s.claims }) = some t := by
  rw [aggregationStep] at h
  split_ifs at h with hfresh
  exact ⟨hfresh, h⟩

theorem called_eq_some
    {call : PortfolioAggregationJob → PortfolioAggregationJob × AggregationJobDisposition}
    (h : s.called claim clock call = some t) :
    claim ∈ s.claims ∧
      t = { s with job := s.job.map fun job => (call job).1, now := clock.third } := by
  unfold AggregationState.called at h
  split_ifs at h with hguard
  exact ⟨hguard.1, (Option.some.inj h).symm⟩

theorem moved_of_map {f : PortfolioAggregationJob → PortfolioAggregationJob}
    (hjob : t.job = s.job.map f) (hclaims : t.claims = s.claims)
    (hf : ∀ job, PortfolioAggregationJob.Change date s a job (f job)) : s.Moved date a t := by
  refine ⟨fun job h => ⟨f job, by rw [hjob, h, Option.map_some], hf job⟩, fun h job h' => ?_,
    .inl hclaims⟩
  rw [hjob, h] at h'
  cases h'

theorem moved_of_job_eq (hjob : t.job = s.job) (hclaims : t.claims = s.claims) :
    s.Moved date a t :=
  moved_of_map (f := id) (by rw [hjob, Option.map_id_fun, id]) hclaims fun _ => .same

theorem stage_moved (dates : List ℤ) (targetEpoch : ℤ) (correlationId : Option String) :
    s.Moved date a
      (s.staged (stageAggregationJobs date s.job dates targetEpoch correlationId)) := by
  unfold stageAggregationJobs
  split_ifs
  · exact moved_of_job_eq rfl rfl
  · exact moved_of_job_eq rfl rfl
  · cases hjob : s.job with
    | none =>
      refine ⟨fun job h => ?_, fun _ job h => ?_, .inl rfl⟩
      · rw [hjob] at h
        cases h
      · rw [← Option.some.inj h]
        rfl
    | some job =>
      dsimp only
      split_ifs
      · refine moved_of_map (f := (·.restaged targetEpoch correlationId)) ?_ rfl
          fun _ => .staged _ _
        rw [hjob]
        rfl
      · exact moved_of_job_eq hjob.symm rfl
  · exact moved_of_job_eq rfl rfl

theorem restage_moved (startDate : ℤ) (endDateExclusive : Option ℤ) (excluded : List ℤ)
    (targetEpoch : ℤ) (correlationId : Option String) :
    s.Moved date a (s.staged (restageAggregationJobsInCarryForwardInterval date s.job startDate
      endDateExclusive excluded targetEpoch correlationId)) := by
  unfold restageAggregationJobsInCarryForwardInterval
  split_ifs
  · exact moved_of_job_eq rfl rfl
  · exact moved_of_job_eq rfl rfl
  · exact moved_of_map rfl rfl fun _ => .staged _ _
  · exact moved_of_job_eq rfl rfl

theorem claimEligibleJob_change {snapshots timeseries : List StampedRow}
    {lease : AggregationJobLease} {job' : PortfolioAggregationJob}
    (h : claimEligibleJob date snapshots timeseries job lease = some job') :
    job.Change date s a job' := by
  unfold claimEligibleJob at h
  split at h
  · cases h
  · split_ifs at h with heligible
    rw [← Option.some.inj h]
    exact .claimed heligible.1 _ _

theorem called_moved (hends : a.Ends claim clock status)
    (h : s.called claim clock (fun job =>
      releaseOrRequeueJob date s.snapshots s.timeseries status job claim clock) = some t) :
    s.Moved date a t := by
  obtain ⟨hhanded, rfl⟩ := called_eq_some h
  refine moved_of_map rfl rfl fun job => ?_
  rcases releaseOrRequeueJob_cases date s.snapshots s.timeseries job status claim clock with
    ⟨-, -, hresult⟩ | ⟨howned, hcurrent, hresult⟩ | hresult
  · rw [hresult]
    exact .requeued
  · rw [hresult]
    exact .released hends hhanded howned hcurrent
  · rw [hresult]
    exact .same

/-- **A row stays a row, and every step changes it in one of these ways.** -/
theorem aggregationStep_moved (h : (aggregation date).step s a = some t) : s.Moved date a t := by
  change aggregationStep date s a = some t at h
  cases a with
  | stage dates targetEpoch correlationId =>
    rw [← Option.some.inj h]
    exact stage_moved dates targetEpoch correlationId
  | restage startDate endDateExclusive excluded targetEpoch correlationId =>
    rw [← Option.some.inj h]
    exact restage_moved startDate endDateExclusive excluded targetEpoch correlationId
  | claim owner token durationSeconds =>
    obtain ⟨hfresh, h⟩ := claim_eq_some h
    rw [Option.bind_eq_some_iff] at h
    obtain ⟨job, hjob, h⟩ := h
    rw [Option.map_eq_some_iff] at h
    obtain ⟨job', hclaim, rfl⟩ := h
    refine ⟨fun job₁ h => ⟨job', rfl, ?_⟩, fun h => ?_, .inr ⟨_, hfresh, rfl⟩⟩
    · obtain rfl : job = job₁ := Option.some.inj (hjob.symm.trans h)
      exact claimEligibleJob_change hclaim
    · rw [hjob] at h
      cases h
  | complete claim clock => exact called_moved ⟨rfl, rfl, rfl⟩ h
  | fail claim clock => exact called_moved ⟨rfl, rfl, rfl⟩ h
  | recover maxAttempts =>
    rw [← Option.some.inj h]
    refine moved_of_map rfl rfl fun job => ?_
    rcases recoverExpiredJobLease_cases job maxAttempts s.now with
      hresult | ⟨-, hresult | ⟨hunmarked, hresult⟩⟩
    · rw [hresult]
      exact .same
    · rw [hresult]
      exact .requeued
    · rw [hresult]
      exact .abandoned hunmarked
  | writeSnapshots rows =>
    rw [← Option.some.inj h]
    exact moved_of_job_eq rfl rfl
  | writeTimeseries rows =>
    rw [← Option.some.inj h]
    exact moved_of_job_eq rfl rfl
  | tick now =>
    rw [aggregationStep] at h
    split_ifs at h
    rw [← Option.some.inj h]
    exact moved_of_job_eq rfl rfl

namespace PortfolioAggregationJob.Change

variable {job' : PortfolioAggregationJob}

theorem sourceRevision_le (h : job.Change date s a job') :
    job.sourceRevision ≤ job'.sourceRevision := by
  cases h with
  | same => exact le_rfl
  | staged => exact Nat.le_succ _
  | claimed _ targetEpoch lease =>
    unfold PortfolioAggregationJob.claimed
    dsimp only
    split_ifs
    · exact Nat.le_succ _
    · exact le_rfl
  | requeued => exact le_rfl
  | released => exact le_rfl
  | abandoned => exact le_rfl

theorem targetEpoch_le (h : job.Change date s a job') : job.targetEpoch ≤ job'.targetEpoch := by
  cases h with
  | same => exact le_rfl
  | staged => exact le_max_left _ _
  | claimed => exact le_max_left _ _
  | requeued => exact le_rfl
  | released => exact le_rfl
  | abandoned => exact le_rfl

/-- A row becomes complete by the call of a worker whose lease is live and whose claim is
current. -/
theorem complete (h : job.Change date s a job') (hcomplete : job'.status = .complete)
    (hnot : job.status ≠ .complete) :
    ∃ claim clock, a = .complete claim clock ∧ claim ∈ s.claims ∧
      job.OwnedClaim claim.leaseToken clock.second ∧
        ¬ job.Superseded date s.snapshots s.timeseries claim := by
  cases h with
  | same => exact absurd hcomplete hnot
  | staged targetEpoch correlationId =>
    rw [restaged_status] at hcomplete
    split_ifs at hcomplete
  | claimed => cases hcomplete
  | requeued => cases hcomplete
  | @released claim clock status call handed owned current =>
    obtain rfl : status = .complete := hcomplete
    cases a with
    | complete c r =>
      obtain ⟨rfl, rfl, -⟩ := call
      exact ⟨c, r, rfl, handed, owned, current⟩
    | fail c r => exact absurd call.2.2 (by decide)
    | _ => exact call.elim
  | abandoned => cases hcomplete

end PortfolioAggregationJob.Change

/-! ### Stagings of a processed job -/

/-- The row is processed and marked for another round. -/
def AggregationState.ReprocessRequested (s : AggregationState) : Prop :=
  ∃ job, s.job = some job ∧ job.status = .processing ∧
    job.failureReason = some aggregationReprocessRequested

def AggregationState.Pending (s : AggregationState) : Prop :=
  ∃ job, s.job = some job ∧ job.status = .pending

theorem stages_requests (hjob : s.job = some job) (hprocessing : job.status = .processing)
    (hstages : a.Stages date) (h : (aggregation date).step s a = some t) :
    t.ReprocessRequested := by
  change aggregationStep date s a = some t at h
  have hmarked : ∀ (targetEpoch : ℤ) (correlationId : Option String),
      ∃ job', some (job.restaged targetEpoch correlationId) = some job' ∧
        job'.status = .processing ∧
          job'.failureReason = some aggregationReprocessRequested := by
    intro targetEpoch correlationId
    refine ⟨_, rfl, ?_, PortfolioAggregationJob.restaged_failureReason hprocessing⟩
    rw [PortfolioAggregationJob.restaged_status, if_pos hprocessing]
  cases a with
  | stage dates targetEpoch correlationId =>
    obtain ⟨hmem, hepoch⟩ := hstages
    have hdates : dates ≠ [] := List.ne_nil_of_mem hmem
    have hstatus : job.status ≠ .pending := by
      rw [hprocessing]
      decide
    rw [aggregationStep, hjob, stageAggregationJobs, if_neg hdates, if_neg (by omega),
      if_pos hmem] at h
    rw [if_pos (Or.inr (Or.inl hstatus))] at h
    rw [← Option.some.inj h]
    exact hmarked _ _
  | restage startDate endDateExclusive excluded targetEpoch correlationId =>
    obtain ⟨hinterval, hepoch⟩ := hstages
    -- the interval holds the date, so it is not empty
    have hnonempty : ¬ ∃ endDate ∈ endDateExclusive, endDate ≤ startDate := by
      rintro ⟨endDate, hend, hle⟩
      have hlt := hinterval.2.1 endDate hend
      have hstart := hinterval.1
      omega
    rw [aggregationStep, hjob, restageAggregationJobsInCarryForwardInterval, if_neg (by omega),
      if_neg hnonempty, if_pos hinterval] at h
    rw [← Option.some.inj h]
    exact hmarked _ _
  | _ => exact hstages.elim

/-- **The mark stays until the row is pending.** -/
theorem reprocess_kept (hs : s.ReprocessRequested) (h : (aggregation date).step s a = some t) :
    t.ReprocessRequested ∨ t.Pending := by
  obtain ⟨job, hjob, hprocessing, hreason⟩ := hs
  obtain ⟨job', hjob', hchange⟩ := (aggregationStep_moved h).changed job hjob
  cases hchange with
  | same => exact Or.inl ⟨job, hjob', hprocessing, hreason⟩
  | staged targetEpoch correlationId =>
    refine Or.inl ⟨_, hjob', ?_, PortfolioAggregationJob.restaged_failureReason hprocessing⟩
    rw [PortfolioAggregationJob.restaged_status, if_pos hprocessing]
  | claimed pending =>
    rw [hprocessing] at pending
    cases pending
  | requeued => exact Or.inr ⟨_, hjob', rfl⟩
  | released _ _ _ current => exact absurd (Or.inr (Or.inr (Or.inl hreason))) current
  | abandoned unmarked => exact absurd hreason unmarked

/-! ### Claims -/

theorem leaseTokens_nodup (hs : (aggregation date).Reachable s) :
    (s.claims.map ClaimedAggregationJob.leaseToken).Nodup := by
  refine hs.invariant (P := fun s => (s.claims.map ClaimedAggregationJob.leaseToken).Nodup) ?_ ?_
  · rintro s ⟨-, hclaims⟩
    rw [hclaims]
    exact List.nodup_nil
  · intro s a t ih h
    rcases (aggregationStep_moved h).claims with hclaims | ⟨claim, hfresh, hclaims⟩
    · rw [hclaims]
      exact ih
    · rw [hclaims]
      exact List.nodup_cons.mpr ⟨hfresh, ih⟩

/-! ### The run -/

/-- The lease token of the claim is not the row's, or the row's lease has expired. -/
def AggregationState.LeaseLost (s : AggregationState) (claim : ClaimedAggregationJob)
    (now : ℤ) : Prop :=
  ∀ job, s.job = some job → ∀ lease, job.lease = some lease →
    lease.token ≠ claim.leaseToken ∨ lease.expiresAt ≤ now

theorem AggregationState.LeaseLost.not_owned {now : ℤ}
    (h : s.LeaseLost claim now) (hjob : s.job = some job) :
    ¬ job.OwnedClaim claim.leaseToken now := by
  rintro ⟨-, lease, hlease, htoken, hlive⟩
  rcases h job hjob lease hlease with hlost | hexpired
  · exact hlost htoken
  · omega

theorem called_of_leaseLost (hlost : s.LeaseLost claim clock.first)
    (h : s.called claim clock (fun job =>
      releaseOrRequeueJob date s.snapshots s.timeseries status job claim clock) = some t) :
    t = { s with now := clock.third } := by
  obtain ⟨-, rfl⟩ := called_eq_some h
  cases hjob : s.job with
  | none => rfl
  | some job =>
    rw [Option.map_some, releaseOrRequeueJob_of_not_owned status (hlost.not_owned hjob)]

/-- The row is there, and its revision and epoch are at least those of an earlier row. -/
def AggregationState.Since (s t : AggregationState) : Prop :=
  ∀ job, s.job = some job → ∃ job', t.job = some job' ∧
    job.sourceRevision ≤ job'.sourceRevision ∧ job.targetEpoch ≤ job'.targetEpoch

theorem since_of_leads (hs : (aggregation date).Reachable s) (h : (aggregation date).Leads s t) :
    s.Since t := by
  refine h.rel hs ?_ ?_ ?_
  · intro s job hjob
    exact ⟨job, hjob, le_rfl, le_rfl⟩
  · intro s t u hst htu job hjob
    obtain ⟨job₁, hjob₁, hrevision₁, hepoch₁⟩ := hst job hjob
    obtain ⟨job₂, hjob₂, hrevision₂, hepoch₂⟩ := htu job₁ hjob₁
    exact ⟨job₂, hjob₂, hrevision₁.trans hrevision₂, hepoch₁.trans hepoch₂⟩
  · intro s a t _ hstep job hjob
    obtain ⟨job', hjob', hchange⟩ := (aggregationStep_moved hstep).changed job hjob
    exact ⟨job', hjob', hchange.sourceRevision_le, hchange.targetEpoch_le⟩

def AggregationState.Completes (s t : AggregationState) : Prop :=
  (∃ job, t.job = some job ∧ job.status = .complete) ∧
    ∀ job, s.job = some job → job.status ≠ .complete

/-- The step is a call of a worker that makes the row complete or failed. -/
def AggregationState.EndedByOwner (s : AggregationState) (a : AggregationStep)
    (t : AggregationState) : Prop :=
  ∃ claim clock status, a.Ends claim clock status ∧
    (∃ job, t.job = some job ∧ job.status = status) ∧
      ∀ job, s.job = some job → job.status ≠ status

theorem not_endedByOwner (hs : s.ReprocessRequested) (h : (aggregation date).step s a = some t) :
    ¬ s.EndedByOwner a t := by
  rintro ⟨claim, clock, status, hends, ⟨job, hjob, hstatus⟩, hbefore⟩
  have hended : status = .complete ∨ status = .failed := by
    cases a with
    | complete c r => exact Or.inl hends.2.2
    | fail c r => exact Or.inr hends.2.2
    | _ => exact hends.elim
  rcases reprocess_kept hs h with ⟨job', hjob', hprocessing, -⟩ | ⟨job', hjob', hpending⟩
  · obtain rfl : job = job' := Option.some.inj (hjob.symm.trans hjob')
    rw [hstatus] at hprocessing
    rcases hended with rfl | rfl <;> cases hprocessing
  · obtain rfl : job = job' := Option.some.inj (hjob.symm.trans hjob')
    rw [hstatus] at hpending
    rcases hended with rfl | rfl <;> cases hpending

/-- **Aggregation jobs never complete on stale sources.** In every reachable state: the row
becomes complete only by the call of the worker that holds its live lease, whose claimed epoch and
revision are the row's, while every authoritative snapshot of the date is materialised; a staging
of a processed job is followed by a pending row before a worker ends the job; revision and epoch
never decrease; and a call whose lease is lost or expired changes nothing. -/
theorem aggregation_never_completes_stale (date : ℤ) {s : AggregationState}
    (hs : (aggregation date).Reachable s) :
    (∀ a t, (aggregation date).step s a = some t → s.Completes t →
      ∃ claim clock job, a = .complete claim clock ∧ claim ∈ s.claims ∧
        (∀ other ∈ s.claims, other.leaseToken = claim.leaseToken → other = claim) ∧
        s.job = some job ∧ job.OwnedClaim claim.leaseToken clock.second ∧
        claim.targetEpoch = job.targetEpoch ∧ claim.sourceRevision = job.sourceRevision ∧
        SourcesMaterialized date s.snapshots s.timeseries) ∧
    (∀ a t job, s.job = some job → job.status = .processing → a.Stages date →
      (aggregation date).step s a = some t →
      ∀ labels u call v, (aggregation date).run t labels = some u →
        (aggregation date).step u call = some v → u.EndedByOwner call v →
          ∃ before w, before <+: labels ∧ (aggregation date).run t before = some w ∧ w.Pending) ∧
    (∀ t, (aggregation date).Leads s t → s.Since t) ∧
    (∀ claim clock a t, a = .complete claim clock ∨ a = .fail claim clock →
      (aggregation date).step s a = some t → s.LeaseLost claim clock.first →
        t = { s with now := clock.third }) := by
  refine ⟨?_, ?_, ?_, ?_⟩
  · rintro a t h ⟨⟨job', hjob', hcomplete⟩, hbefore⟩
    cases hjob : s.job with
    | none =>
      rw [(aggregationStep_moved h).inserted hjob job' hjob'] at hcomplete
      cases hcomplete
    | some job =>
      obtain ⟨job'', hjob'', hchange⟩ := (aggregationStep_moved h).changed job hjob
      obtain rfl : job' = job'' := Option.some.inj (hjob'.symm.trans hjob'')
      obtain ⟨claim, clock, hcall, hhanded, howned, hcurrent⟩ :=
        hchange.complete hcomplete (hbefore job hjob)
      obtain ⟨hepoch, hrevision, hfresh⟩ := job.releasable_of_not_superseded hcurrent
      have hunique : ∀ other ∈ s.claims, other.leaseToken = claim.leaseToken → other = claim :=
        fun other hother => Table.eq_of_key (leaseTokens_nodup hs) hother hhanded
      exact ⟨claim, clock, job, hcall, hhanded, hunique, rfl, howned, hepoch.symm,
        hrevision.symm, sourcesMaterialized_of_not_unmaterialized _ _ _ hfresh⟩
  · intro a t job hjob hprocessing hstages h labels u call v hrun hcall hended
    have hmarked := stages_requests hjob hprocessing hstages h
    rcases Machine.run_unless hmarked hrun fun _ _ _ => reprocess_kept with hend | hpending
    · exact absurd hended (not_endedByOwner hend hcall)
    · exact hpending
  · intro t h
    exact since_of_leads hs h
  · intro claim clock a t ha h hlost
    rcases ha with rfl | rfl
    · exact called_of_leaseLost hlost h
    · exact called_of_leaseLost hlost h

/-- One security whose row was written after its snapshot; the day is staged and claimed. -/
def claimedDay : AggregationState where
  now := 2
  job := some
    { status := .processing, targetEpoch := 0, sourceRevision := 1, attemptCount := 1,
      failureReason := none, correlationId := none, lease := some ⟨"scheduler", "token", 32⟩ }
  snapshots := [⟨"EQ", 0, 0, 0⟩]
  timeseries := [⟨"EQ", 0, 0, 1⟩]
  claims := [⟨0, 1, "token"⟩]

theorem claimedDay_reachable : (aggregation 0).Reachable claimedDay := by
  have hinit : (aggregation 0).Reachable
      ⟨2, none, [⟨"EQ", 0, 0, 0⟩], [⟨"EQ", 0, 0, 1⟩], []⟩ := .init ⟨rfl, rfl⟩
  exact hinit.run (l := [.stage [0] 0 none, .claim "scheduler" "token" 30]) (by decide +kernel)

theorem claimedDay_completes_materialized :
    ∃ t, (aggregation 0).step claimedDay (.complete ⟨0, 1, "token"⟩ ⟨3, 3, 3, by decide,
        by decide⟩) = some t ∧
      claimedDay.Completes t ∧
        SourcesMaterialized 0 claimedDay.snapshots claimedDay.timeseries := by
  have hcompletes : claimedDay.Completes
      { claimedDay with
        now := 3
        job := some ⟨.complete, 0, 1, 1, none, none, none⟩ } :=
    ⟨⟨_, rfl, rfl⟩, fun job hjob => by
      rw [← Option.some.inj hjob]
      decide⟩
  have hstep : (aggregation 0).step claimedDay
      (.complete ⟨0, 1, "token"⟩ ⟨3, 3, 3, by decide, by decide⟩) =
        some { claimedDay with
          now := 3
          job := some ⟨.complete, 0, 1, 1, none, none, none⟩ } := by decide +kernel
  obtain ⟨_, _, _, _, _, _, _, _, _, _, hsources⟩ :=
    (aggregation_never_completes_stale 0 claimedDay_reachable).1 _ _ hstep hcompletes
  exact ⟨_, hstep, hcompletes, hsources⟩

end Change

end LotusCore.DerivedState
