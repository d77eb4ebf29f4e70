import LotusCore.CorporateAction.Manifest

/-!
# Releases of corporate actions

A release executes the members of a corporate action one by one. Workers take it under a lease with
a fence token; every later call is fenced by token, fence and the database clock. The modelled calls
are the transactions of the release repository. Times are integers, in seconds; a call that reads
the clock twice takes both readings.

* `ReleaseTables`: releases, members, readiness evaluations and events.
* `claimNext`, `loadOwnedNext`, `advanceMember`, `failRelease`, `renewLease`: the calls of a worker.
* `materialize`: a release for current evidence that is ready.
-/

namespace LotusCore

open Table

/-- The status of a release. -/
inductive ReleaseStatus
  | pending
  | processing
  | complete
  | failed
  | superseded
  deriving DecidableEq, Repr

/-- The status of a member. -/
inductive MemberStatus
  | pending
  | complete
  deriving DecidableEq, Repr

/-- A row of `corporate_action_execution_releases`. -/
structure ExecutionRelease where
  id : ℕ
  readinessEvaluationId : ℕ
  memberCount : ℕ
  status : ReleaseStatus := .pending
  nextExecutionOrdinal : ℕ := 0
  attemptCount : ℕ := 0
  fenceToken : ℕ := 0
  leaseOwner : Option String := none
  leaseToken : Option String := none
  leaseExpiresAt : Option ℤ := none
  terminalReason : Option String := none
  deriving DecidableEq, Repr

/-- A row of `corporate_action_execution_members`. -/
structure ExecutionMember where
  releaseId : ℕ
  executionOrdinal : ℕ
  transactionId : String
  status : MemberStatus := .pending
  completedFenceToken : Option ℕ := none
  deriving DecidableEq, Repr

/-- A row of `corporate_action_readiness_evaluations`. -/
structure ReadinessEvaluation where
  id : ℕ
  eventId : ℕ
  stateVersion : ℕ
  readinessStatus : ManifestReadinessStatus
  orderedTransactionIds : List String
  deriving DecidableEq, Repr

/-- A row of `corporate_action_events`. -/
structure CorporateActionEvent where
  id : ℕ
  stateVersion : ℕ
  readinessStatus : ManifestReadinessStatus
  deriving DecidableEq, Repr

/-- The tables of the release repository. -/
structure ReleaseTables where
  releases : List ExecutionRelease
  members : List ExecutionMember
  evaluations : List ReadinessEvaluation
  events : List CorporateActionEvent
  deriving DecidableEq, Repr

/-- `CorporateActionExecutionLeaseRequest` with the token of a worker: 64 digits, which the table's
own check demands. -/
structure LeaseRequest where
  owner : String
  token : String
  durationSeconds : ℕ
  owner_nonblank : strip owner = owner ∧ owner ≠ ""
  owner_length : owner.toList.length ≤ 128
  token_digest : isSha256Digest token
  duration_bounds : 1 ≤ durationSeconds ∧ durationSeconds ≤ 3600

/-- `ClaimedCorporateActionExecutionRelease`. -/
structure ClaimedRelease where
  releaseId : ℕ
  memberCount : ℕ
  nextMember : ExecutionMember
  attemptCount : ℕ
  fenceToken : ℕ
  leaseOwner : String
  leaseToken : String
  leaseExpiresAt : ℤ

/-- `CorporateActionReleaseProgressOutcome`. -/
inductive ReleaseProgressOutcome
  | advanced
  | complete
  | lostOwnership
  deriving DecidableEq, Repr

/-! ## Checks -/

def requirePositiveInteger (value : ℕ) (fieldName : String) : Except Raised Unit :=
  refuseIf (value < 1) (fieldName ++ " must be a positive integer")

/-- `_required_text`. -/
def requiredCanonicalText (value fieldName : String) : Except Raised Unit :=
  refuseIf (strip value = "" ∨ strip value ≠ value)
    (fieldName ++ " must be canonical non-empty text")

def requireSha256Digest (value fieldName : String) : Except Raised Unit :=
  refuseIf (isCanonicalDigest value = false) (fieldName ++ " must be a canonical sha256 digest")

variable (releaseId : ℕ)

/-- The checks of a call under a lease on its arguments. -/
def requireLeaseArguments (leaseToken : String) (fenceToken : ℕ) :
    Except Raised Unit := do
  requirePositiveInteger releaseId "release_id"
  requireSha256Digest leaseToken "lease_token"
  requirePositiveInteger fenceToken "fence_token"

/-- `_claimed_release`, with the checks of the constructor it calls. -/
def claimedRelease (release : ExecutionRelease) (member : ExecutionMember) :
    Except Raised ClaimedRelease :=
  match release.leaseOwner, release.leaseToken, release.leaseExpiresAt with
  | some leaseOwner, some leaseToken, some leaseExpiresAt => do
    requirePositiveInteger release.id "release_id"
    requirePositiveInteger release.memberCount "member_count"
    requirePositiveInteger release.attemptCount "attempt_count"
    requirePositiveInteger release.fenceToken "fence_token"
    requiredCanonicalText leaseOwner "lease_owner"
    requiredCanonicalText leaseToken "lease_token"
    requireSha256Digest leaseToken "lease_token"
    refuseIf (release.memberCount ≤ member.executionOrdinal)
      "next member ordinal must be within the release"
    .ok
      { releaseId := release.id
        memberCount := release.memberCount
        nextMember := member
        attemptCount := release.attemptCount
        fenceToken := release.fenceToken
        leaseOwner := leaseOwner
        leaseToken := leaseToken
        leaseExpiresAt := leaseExpiresAt }
  | _, _, _ =>
    .error (.valueError "claimed corporate-action release lacks complete lease authority")

/-! ## Claims -/

variable (db : ReleaseTables)

/-- The event a release belongs to. -/
def ReleaseTables.eventOf (r : ExecutionRelease) : Option ℕ :=
  (row? ReadinessEvaluation.id db.evaluations r.readinessEvaluationId).map
    ReadinessEvaluation.eventId

/-- The event state the release was built from is not the current one, or is not ready. -/
def ReleaseTables.stale (r : ExecutionRelease) : Bool :=
  match row? ReadinessEvaluation.id db.evaluations r.readinessEvaluationId with
  | none => false
  | some evaluation =>
    match row? CorporateActionEvent.id db.events evaluation.eventId with
    | none => false
    | some event =>
      event.stateVersion ≠ evaluation.stateVersion || event.readinessStatus ≠ .ready

/-- What `_supersede_stale_pending_releases` sets. -/
def ExecutionRelease.supersede (r : ExecutionRelease) : ExecutionRelease :=
  { r with status := .superseded, terminalReason := some "superseded_by_newer_event_state" }

/-- `_supersede_stale_pending_releases`. -/
def supersedeStalePendingReleases : ReleaseTables :=
  { db with
    releases := updateWhere (fun r => r.status = .pending && db.stale r)
      ExecutionRelease.supersede db.releases }

variable (clock : ℤ)

/-- `lease_expires_at <= clock_timestamp()`. -/
def ExecutionRelease.leaseExpired (r : ExecutionRelease) : Bool :=
  match r.leaseExpiresAt with
  | none => false
  | some expiry => expiry ≤ clock

/-- `lease_expires_at > clock_timestamp()`. -/
def ExecutionRelease.leaseLive (r : ExecutionRelease) : Bool :=
  match r.leaseExpiresAt with
  | none => false
  | some expiry => clock < expiry

/-- Another release of the event is being worked on. -/
def ReleaseTables.sameEventIsProcessing (r : ExecutionRelease) : Bool :=
  db.releases.any fun q => q.id ≠ r.id && q.status = .processing &&
    (db.eventOf q).isSome && db.eventOf q = db.eventOf r

/-- What a claim may take. -/
def ReleaseTables.claimable (clock : ℤ) (r : ExecutionRelease) : Bool :=
  (db.eventOf r).isSome &&
    (r.status = .pending || (r.status = .processing && r.leaseExpired clock)) &&
    !db.sameEventIsProcessing r

/-- The release a claim takes: the first by id that no other transaction has locked. -/
def claimCandidate (locked : List ℕ) (db : ReleaseTables) : Option ExecutionRelease :=
  ((db.releases.filter fun r => db.claimable clock r && !locked.contains r.id).insertionSort
    fun a b => a.id ≤ b.id).head?

/-- What `claim_next` sets in the release. -/
def ExecutionRelease.claim (lease : LeaseRequest) (clock : ℤ) (r : ExecutionRelease) :
    ExecutionRelease :=
  { r with
    status := .processing
    attemptCount := r.attemptCount + 1
    fenceToken := r.fenceToken + 1
    leaseOwner := some lease.owner
    leaseToken := some lease.token
    leaseExpiresAt := some (clock + lease.durationSeconds)
    terminalReason := none }

/-- The member of the ordinal, if it is still pending. -/
def pendingMemberAt (releaseId ordinal : ℕ) (m : ExecutionMember) : Bool :=
  m.releaseId = releaseId && m.executionOrdinal = ordinal && m.status = .pending

/-- `claim_next`: the candidate is chosen by one reading of the clock, the lease runs from a later
one. -/
def claimNext (lease : LeaseRequest) (clock later : ℤ) (locked : List ℕ) (db : ReleaseTables) :
    Except Raised (Option ClaimedRelease × ReleaseTables) :=
  let db := supersedeStalePendingReleases db
  match claimCandidate clock locked db with
  | none => .ok (none, db)
  | some candidate =>
    match db.members.find? (pendingMemberAt candidate.id candidate.nextExecutionOrdinal) with
    | none =>
      .error (.valueError "claimed corporate-action release lacks its exact next member")
    | some member => do
      let claimed ← claimedRelease (candidate.claim lease later) member
      .ok
        (some claimed,
          { db with
            releases := updateWhere (fun r => r.id = candidate.id)
              (ExecutionRelease.claim lease later) db.releases })

/-! ## Calls under a lease -/

/-- The fence of `advance_member` and `fail_release`. -/
def ExecutionRelease.ownedAt (releaseId expectedOrdinal : ℕ) (leaseToken : String)
    (fenceToken : ℕ) (clock : ℤ) (r : ExecutionRelease) : Bool :=
  r.id = releaseId && r.status = .processing && r.nextExecutionOrdinal = expectedOrdinal &&
    r.leaseToken = some leaseToken && r.fenceToken = fenceToken && r.leaseLive clock

/-- What `advance_member` sets in the release. -/
def ExecutionRelease.advance (r : ExecutionRelease) : ExecutionRelease :=
  let completesRelease := r.nextExecutionOrdinal + 1 = r.memberCount
  { r with
    nextExecutionOrdinal := r.nextExecutionOrdinal + 1
    status := if completesRelease then .complete else .processing
    leaseOwner := if completesRelease then none else r.leaseOwner
    leaseToken := if completesRelease then none else r.leaseToken
    leaseExpiresAt := if completesRelease then none else r.leaseExpiresAt }

/-- What `advance_member` sets in the member. -/
def ExecutionMember.completeMember (fenceToken : ℕ) (m : ExecutionMember) : ExecutionMember :=
  { m with status := .complete, completedFenceToken := some fenceToken }

/-- `advance_member`: the release is locked by one reading of the clock and moved on by a later
one. -/
def advanceMember (releaseId expectedOrdinal : ℕ) (leaseToken : String) (fenceToken : ℕ)
    (clock later : ℤ) (db : ReleaseTables) :
    Except Raised (ReleaseProgressOutcome × ReleaseTables) := do
  requireLeaseArguments releaseId leaseToken fenceToken
  if !db.releases.any
      (ExecutionRelease.ownedAt releaseId expectedOrdinal leaseToken fenceToken clock) then
    .ok (.lostOwnership, db)
  else if db.members.countP (pendingMemberAt releaseId expectedOrdinal) ≠ 1 then
    .error (.valueError "owned corporate-action release member is not pending")
  else
    match db.releases.find?
        (ExecutionRelease.ownedAt releaseId expectedOrdinal leaseToken fenceToken later) with
    | none => .error (.valueError "owned corporate-action release did not advance")
    | some owned =>
      .ok
        (if owned.advance.status = .complete then .complete else .advanced,
          { db with
            members := updateWhere (pendingMemberAt releaseId expectedOrdinal)
              (ExecutionMember.completeMember fenceToken) db.members
            releases := updateWhere
              (ExecutionRelease.ownedAt releaseId expectedOrdinal leaseToken fenceToken later)
              ExecutionRelease.advance db.releases })

/-- `fail_release`. -/
def failRelease (releaseId expectedOrdinal : ℕ) (leaseToken : String) (fenceToken : ℕ)
    (terminalReason : String) (clock : ℤ) (db : ReleaseTables) :
    Except Raised (Bool × ReleaseTables) := do
  requireLeaseArguments releaseId leaseToken fenceToken
  let reason := strip terminalReason
  if reason = "" ∨ 512 < reason.length then
    .error (.valueError "terminal_reason must contain at most 512 nonblank characters")
  else
    .ok
      (db.releases.any
          (ExecutionRelease.ownedAt releaseId expectedOrdinal leaseToken fenceToken clock),
        { db with
          releases := updateWhere
            (ExecutionRelease.ownedAt releaseId expectedOrdinal leaseToken fenceToken clock)
            (fun r => { r with status := .failed, leaseOwner := none, leaseToken := none,
                               leaseExpiresAt := none, terminalReason := some reason })
            db.releases })

/-- The fence of `load_owned_next`. -/
def ExecutionRelease.leasedUnder (leaseToken : String) (fenceToken : ℕ) (clock : ℤ)
    (r : ExecutionRelease) : Bool :=
  r.id = releaseId && r.status = .processing && r.leaseToken = some leaseToken &&
    r.fenceToken = fenceToken && r.leaseLive clock

/-- `load_owned_next`. -/
def loadOwnedNext (leaseToken : String) (fenceToken : ℕ) (clock : ℤ) (db : ReleaseTables)
    : Except Raised (Option ClaimedRelease) := do
  requireLeaseArguments releaseId leaseToken fenceToken
  match db.releases.find? (ExecutionRelease.leasedUnder releaseId leaseToken fenceToken clock) with
  | none => .ok none
  | some release =>
    match db.members.find? (pendingMemberAt release.id release.nextExecutionOrdinal) with
    | none => .error (.valueError "owned corporate-action release lacks its exact next member")
    | some member => do
      let claimed ← claimedRelease release member
      .ok (some claimed)

/-- The fence of `renew_lease`. -/
def ExecutionRelease.heldBy (lease : LeaseRequest) (fenceToken : ℕ) (clock : ℤ)
    (r : ExecutionRelease) : Bool :=
  r.id = releaseId && r.status = .processing && r.leaseOwner = some lease.owner &&
    r.leaseToken = some lease.token && r.fenceToken = fenceToken && r.leaseLive clock

/-- `renew_lease`: the lease runs from a reading of the clock after that of the fence. -/
def renewLease (lease : LeaseRequest) (fenceToken : ℕ) (clock later : ℤ) (db : ReleaseTables)
    : Except Raised (Bool × ReleaseTables) := do
  requirePositiveInteger releaseId "release_id"
  requirePositiveInteger fenceToken "fence_token"
  .ok
    (db.releases.any (ExecutionRelease.heldBy releaseId lease fenceToken clock),
      { db with
        releases := updateWhere (ExecutionRelease.heldBy releaseId lease fenceToken clock)
          (fun r => { r with leaseExpiresAt := some (later + lease.durationSeconds) })
          db.releases })

/-! ## Evidence -/

/-- A new evaluation of the event, with the next version of its state. -/
def recordReadiness (evaluationId eventId : ℕ) (readinessStatus : ManifestReadinessStatus)
    (orderedTransactionIds : List String) (event : CorporateActionEvent) (db : ReleaseTables) :
    ReleaseTables :=
  { db with
    events := updateWhere (fun e => e.id = eventId)
      (fun e => { e with stateVersion := e.stateVersion + 1, readinessStatus := readinessStatus })
      db.events
    evaluations := db.evaluations ++
      [⟨evaluationId, eventId, event.stateVersion + 1, readinessStatus, orderedTransactionIds⟩] }

/-- The evaluation is ready and is the current one of its event. -/
def ReleaseTables.currentReady (evaluation : ReadinessEvaluation) : Bool :=
  evaluation.readinessStatus = .ready &&
    db.events.any fun event => event.id = evaluation.eventId &&
      event.readinessStatus = .ready && event.stateVersion = evaluation.stateVersion

/-- The members of a new release. -/
def newMembers (orderedTransactionIds : List String) : List ExecutionMember :=
  orderedTransactionIds.mapIdx fun ordinal transactionId =>
    { releaseId := releaseId, executionOrdinal := ordinal, transactionId := transactionId }

/-- A new release of an evaluation. -/
def newRelease (evaluation : ReadinessEvaluation) : ExecutionRelease :=
  { id := releaseId, readinessEvaluationId := evaluation.id,
    memberCount := evaluation.orderedTransactionIds.length }

/-- The tables with a new release. -/
def ReleaseTables.withRelease (releaseId : ℕ) (evaluation : ReadinessEvaluation) : ReleaseTables :=
  { db with
    releases := db.releases ++ [newRelease releaseId evaluation]
    members := db.members ++ newMembers releaseId evaluation.orderedTransactionIds }

/-- `materialize`, for a plan that agrees with the current evidence: an existing release of the
evaluation is left alone. The new release has a fresh id, and one member for each transaction of the
plan. -/
def materialize (evaluation : ReadinessEvaluation) (db : ReleaseTables) :
    Except Raised ReleaseTables :=
  if !db.currentReady evaluation then
    .error (.valueError "corporate-action execution plan is not the current READY authority")
  else if evaluation.orderedTransactionIds = [] then
    .error (.valueError "members must not be empty")
  else if db.releases.any fun r => r.readinessEvaluationId = evaluation.id then .ok db
  else .ok (db.withRelease releaseId evaluation)

end LotusCore
