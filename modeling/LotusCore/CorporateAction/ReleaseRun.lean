import LotusCore.CorporateAction.Release
import LotusCore.Exec.Machine
import LotusCore.Exec.Raising

/-!
# Runs of release workers

Any number of workers call the release repository at once, while leases expire and new readiness
versions arrive. Each call is one transaction; one that raises leaves the tables as they were.

* `releaseMachine`: the workers, the evidence and the database clock.
* `ExecutionRelease.Change`: what a call can do to a release without executing a member.
* `ReleaseTables.Sound`: a release and its members agree.
* **`release_executes_in_order`**: members are executed once, in order, under the current fence.
* **`release_calls_return`**: of the integrity checks one can fire, when a lease ends during a call.
-/

namespace LotusCore

open Table Exec List

/-! ## The machine -/

/-- The tables, the database clock, and the releases claimed so far, one entry a claim. -/
structure ReleaseState where
  db : ReleaseTables
  clock : ℤ
  claims : List ℕ
  deriving DecidableEq

/-- The calls of workers, new evidence, and the clock. A call that reads the clock twice says how
much time passes in between. -/
inductive ReleaseStep
  | claimNext (lease : LeaseRequest) (locked : List ℕ) (elapsed : ℕ)
  | renewLease (releaseId : ℕ) (lease : LeaseRequest) (fenceToken elapsed : ℕ)
  | advanceMember (releaseId expectedOrdinal : ℕ) (leaseToken : String) (fenceToken elapsed : ℕ)
  | failRelease (releaseId expectedOrdinal : ℕ) (leaseToken : String) (fenceToken : ℕ)
      (terminalReason : String)
  | openEvent (eventId : ℕ)
  | recordReadiness (evaluationId eventId : ℕ) (readinessStatus : ManifestReadinessStatus)
      (orderedTransactionIds : List String)
  | materialize (releaseId evaluationId : ℕ)
  | tick (elapsed : ℕ)

/-- The release a call has claimed. -/
def claimedId (result : Except Raised (Option ClaimedRelease × ReleaseTables)) : Option ℕ :=
  match result with
  | .ok (claim, _) => claim.map ClaimedRelease.releaseId
  | .error _ => none

/-- One step. Ids of new rows are fresh, and those of releases positive. -/
def releaseStep (s : ReleaseState) : ReleaseStep → Option ReleaseState
  | .claimNext lease locked elapsed =>
    let result := claimNext lease s.clock (s.clock + elapsed) locked s.db
    some
      { db := committed s.db result
        clock := s.clock + elapsed
        claims := s.claims ++ (claimedId result).toList }
  | .renewLease releaseId lease fenceToken elapsed =>
    some { s with
      db := committed s.db
        (renewLease releaseId lease fenceToken s.clock (s.clock + elapsed) s.db)
      clock := s.clock + elapsed }
  | .advanceMember releaseId expectedOrdinal leaseToken fenceToken elapsed =>
    some { s with
      db := committed s.db (advanceMember releaseId expectedOrdinal leaseToken fenceToken s.clock
        (s.clock + elapsed) s.db)
      clock := s.clock + elapsed }
  | .failRelease releaseId expectedOrdinal leaseToken fenceToken terminalReason =>
    some { s with
      db := committed s.db (failRelease releaseId expectedOrdinal leaseToken fenceToken
        terminalReason s.clock s.db) }
  | .openEvent eventId =>
    if eventId ∈ s.db.events.map CorporateActionEvent.id then none
    else some { s with
      db := { s.db with events := s.db.events ++ [⟨eventId, 0, .awaitingManifest⟩] } }
  | .recordReadiness evaluationId eventId readinessStatus orderedTransactionIds =>
    if evaluationId ∈ s.db.evaluations.map ReadinessEvaluation.id then none
    else (row? CorporateActionEvent.id s.db.events eventId).map fun event => { s with
      db := recordReadiness evaluationId eventId readinessStatus orderedTransactionIds event s.db }
  | .materialize releaseId evaluationId =>
    if releaseId = 0 ∨ releaseId ∈ s.db.releases.map ExecutionRelease.id then none
    else (row? ReadinessEvaluation.id s.db.evaluations evaluationId).map fun evaluation => { s with
      db := match materialize releaseId evaluation s.db with
        | .ok db => db
        | .error _ => s.db }
  | .tick elapsed => some { s with clock := s.clock + elapsed }

/-- Workers on tables that start empty. -/
def releaseMachine : Machine ReleaseState ReleaseStep where
  init s := s.db = ⟨[], [], [], []⟩ ∧ s.claims = []
  step := releaseStep

/-! ## What the calls do -/

variable {leaseToken : String}

section Calls

variable {db db' : ReleaseTables} {clock later : ℤ} {r r' : ExecutionRelease}
  {releaseId ordinal fenceToken : ℕ} {lease : LeaseRequest} {done : Bool}

/-- What a call can do to a release without executing a member, `claimed` being the release it has
claimed. -/
inductive ExecutionRelease.Change (db : ReleaseTables) (claimed : Option ℕ)
    (r : ExecutionRelease) : ExecutionRelease → Prop
  | same (other : claimed ≠ some r.id) : Change db claimed r r
  | superseded (other : claimed ≠ some r.id) (pending : r.status = .pending) :
      Change db claimed r r.supersede
  | taken {lease : LeaseRequest} {clock : ℤ} (this : claimed = some r.id)
      (unfinished : r.status = .pending ∨ r.status = .processing)
      (alone : ∀ q ∈ db.releases, q.id ≠ r.id → q.status = .processing →
        db.eventOf q ≠ db.eventOf r) : Change db claimed r (r.claim lease clock)
  | renewed {expiry : ℤ} (other : claimed ≠ some r.id) (processing : r.status = .processing) :
      Change db claimed r { r with leaseExpiresAt := some expiry }
  | failed {reason : String} (other : claimed ≠ some r.id) (processing : r.status = .processing) :
      Change db claimed r
        { r with status := .failed, leaseOwner := none, leaseToken := none,
                 leaseExpiresAt := none, terminalReason := some reason }

/-- A call changes its releases one by one and leaves the rest. -/
structure Changes (db : ReleaseTables) (claimed : Option ℕ) (db' : ReleaseTables) : Prop where
  releases : ∃ g : ExecutionRelease → ExecutionRelease, db'.releases = db.releases.map g ∧
    ∀ r ∈ db.releases, r.Change db claimed (g r)
  claimed_mem : ∀ i, claimed = some i → i ∈ db.releases.map ExecutionRelease.id
  members : db'.members = db.members
  evaluations : db'.evaluations = db.evaluations

theorem changes_updateWhere {p : ExecutionRelease → Bool} {f : ExecutionRelease → ExecutionRelease}
    {claimed : Option ℕ}
    (hclaimed : ∀ i, claimed = some i → i ∈ db.releases.map ExecutionRelease.id)
    (h : ∀ r ∈ db.releases, if p r then r.Change db claimed (f r) else claimed ≠ some r.id) :
    Changes db claimed { db with releases := updateWhere p f db.releases } := by
  refine ⟨⟨_, rfl, fun r hr => ?_⟩, hclaimed, rfl, rfl⟩
  have hr := h r hr
  by_cases hp : p r
  · rw [if_pos hp] at hr ⊢
    exact hr
  · rw [if_neg hp] at hr ⊢
    exact .same hr

theorem unclaimed_updateWhere {p : ExecutionRelease → Bool}
    {f : ExecutionRelease → ExecutionRelease}
    (h : ∀ r ∈ db.releases, p r → r.Change db none (f r)) :
    Changes db none { db with releases := updateWhere p f db.releases } := by
  refine changes_updateWhere (by simp) fun r hr => ?_
  split_ifs with hp
  · exact h r hr hp
  · simp

theorem supersede_changes (db : ReleaseTables) :
    Changes db none (supersedeStalePendingReleases db) := by
  refine unclaimed_updateWhere fun r _ hr => .superseded (by simp) ?_
  simp only [Bool.and_eq_true, decide_eq_true_eq] at hr
  exact hr.1

theorem ExecutionRelease.ownedAt_iff : r.ownedAt releaseId ordinal leaseToken fenceToken clock ↔
      r.id = releaseId ∧ r.status = .processing ∧ r.nextExecutionOrdinal = ordinal ∧
        r.leaseToken = some leaseToken ∧ r.fenceToken = fenceToken ∧ r.leaseLive clock := by
  simp [ExecutionRelease.ownedAt, and_assoc]

theorem ExecutionRelease.heldBy_iff : r.heldBy releaseId lease fenceToken clock ↔
      r.id = releaseId ∧ r.status = .processing ∧ r.leaseOwner = some lease.owner ∧
        r.leaseToken = some lease.token ∧ r.fenceToken = fenceToken ∧ r.leaseLive clock := by
  simp [ExecutionRelease.heldBy, and_assoc]

theorem renewLease_ok (h : renewLease releaseId lease fenceToken clock later db = .ok (done, db')) :
    db' = { db with
      releases := updateWhere (ExecutionRelease.heldBy releaseId lease fenceToken clock)
        (fun r => { r with leaseExpiresAt := some (later + lease.durationSeconds) })
        db.releases } := by
  obtain ⟨_, -, h⟩ := except_bind_eq_ok.mp h
  obtain ⟨_, -, h⟩ := except_bind_eq_ok.mp h
  exact (Prod.mk.inj (Except.ok.inj h)).2.symm

theorem failRelease_ok {leaseToken reason : String}
    (h : failRelease releaseId ordinal leaseToken fenceToken reason clock db =
      .ok (done, db')) :
    db' = { db with
      releases := updateWhere
        (ExecutionRelease.ownedAt releaseId ordinal leaseToken fenceToken clock)
        (fun r => { r with status := .failed, leaseOwner := none, leaseToken := none,
                           leaseExpiresAt := none,
                           terminalReason := some (strip reason) })
        db.releases } := by
  obtain ⟨_, -, h⟩ := except_bind_eq_ok.mp h
  dsimp only at h
  by_cases hreason : strip reason = "" ∨ 512 < (strip reason).length
  · rw [if_pos hreason] at h
    cases h
  · rw [if_neg hreason] at h
    exact (Prod.mk.inj (Except.ok.inj h)).2.symm

theorem advanceMember_ok {outcome : ReleaseProgressOutcome}
    (h : advanceMember releaseId ordinal leaseToken fenceToken clock later db =
      .ok (outcome, db')) :
    db' = db ∨
    (∃ r ∈ db.releases, r.ownedAt releaseId ordinal leaseToken fenceToken clock) ∧
    (∃ r ∈ db.releases, r.ownedAt releaseId ordinal leaseToken fenceToken later) ∧
    db' = { db with
      members := updateWhere (pendingMemberAt releaseId ordinal)
        (ExecutionMember.completeMember fenceToken) db.members
      releases := updateWhere
        (ExecutionRelease.ownedAt releaseId ordinal leaseToken fenceToken later)
        ExecutionRelease.advance db.releases } := by
  obtain ⟨_, -, h⟩ := except_bind_eq_ok.mp h
  split_ifs at h with hlost hcount
  · exact .inl (Prod.mk.inj (Except.ok.inj h)).2.symm
  · rw [Bool.not_eq_true', Bool.not_eq_false, any_eq_true] at hlost
    cases hfind : db.releases.find?
        (ExecutionRelease.ownedAt releaseId ordinal leaseToken fenceToken later) with
    | none =>
      rw [hfind] at h
      cases h
    | some owned =>
      rw [hfind] at h
      exact .inr ⟨hlost, ⟨owned, mem_of_find?_eq_some hfind, List.find?_some hfind⟩,
        (Prod.mk.inj (Except.ok.inj h)).2.symm⟩

theorem renewLease_changes
    (h : renewLease releaseId lease fenceToken clock later db = .ok (done, db')) :
    Changes db none db' := by
  rw [renewLease_ok h]
  refine unclaimed_updateWhere fun r _ hr => .renewed (by simp) ?_
  exact (ExecutionRelease.heldBy_iff.mp hr).2.1

theorem failRelease_changes {leaseToken reason : String}
    (h : failRelease releaseId ordinal leaseToken fenceToken reason clock db =
      .ok (done, db')) : Changes db none db' := by
  rw [failRelease_ok h]
  refine unclaimed_updateWhere fun r _ hr => .failed (by simp) ?_
  exact (ExecutionRelease.ownedAt_iff.mp hr).2.1

theorem mem_claimCandidate {locked : List ℕ} (h : claimCandidate clock locked db = some r) :
    r ∈ db.releases ∧ db.claimable clock r := by
  have hmem := (perm_insertionSort _ _).mem_iff.mp (mem_of_head? h)
  rw [mem_filter, Bool.and_eq_true] at hmem
  exact ⟨hmem.1, hmem.2.1⟩

theorem ReleaseTables.claimable_iff : db.claimable clock r ↔
    (db.eventOf r).isSome ∧
      (r.status = .pending ∨ r.status = .processing ∧ r.leaseExpired clock) ∧
      ∀ q ∈ db.releases, q.id ≠ r.id → q.status = .processing → db.eventOf q ≠ db.eventOf r := by
  simp only [ReleaseTables.claimable, ReleaseTables.sameEventIsProcessing, Bool.and_eq_true,
    Bool.or_eq_true, decide_eq_true_eq, Bool.not_eq_true', any_eq_false, and_assoc,
    not_and]
  refine and_congr_right fun hsome => and_congr_right fun _ => forall₂_congr fun q _ => ?_
  refine forall_congr' fun _ => forall_congr' fun _ => ⟨fun h heq => ?_, fun h _ => h⟩
  exact h (heq ▸ hsome) heq

theorem claimedRelease_ok {member : ExecutionMember} {claimed : ClaimedRelease}
    (h : claimedRelease r member = .ok claimed) : claimed.releaseId = r.id := by
  unfold claimedRelease requirePositiveInteger requiredCanonicalText requireSha256Digest at h
  split at h
  · simp only [refuseIf_bind_eq_ok, Except.ok.injEq] at h
    obtain ⟨-, -, -, -, -, -, -, -, rfl⟩ := h
    rfl
  · cases h

/-- A claim changes one release of the tables without stale ones, or none. -/
theorem claimNext_changes {locked : List ℕ} {claim : Option ClaimedRelease}
    (hids : ((supersedeStalePendingReleases db).releases.map ExecutionRelease.id).Nodup)
    (h : claimNext lease clock later locked db = .ok (claim, db')) :
    Changes (supersedeStalePendingReleases db) (claim.map ClaimedRelease.releaseId) db' := by
  unfold claimNext at h
  dsimp only at h
  generalize supersedeStalePendingReleases db = start at hids h ⊢
  cases hcandidate : claimCandidate clock locked start with
  | none =>
    simp only [hcandidate, Except.ok.injEq, Prod.mk.injEq] at h
    obtain ⟨rfl, rfl⟩ := h
    exact ⟨⟨id, (map_id _).symm, fun r _ => .same (by simp)⟩, by simp, rfl, rfl⟩
  | some candidate =>
    simp only [hcandidate] at h
    obtain ⟨hmem, hclaimable⟩ := mem_claimCandidate hcandidate
    obtain ⟨-, hunfinished, halone⟩ := ReleaseTables.claimable_iff.mp hclaimable
    cases hmember : start.members.find?
        (pendingMemberAt candidate.id candidate.nextExecutionOrdinal) with
    | none =>
      simp only [hmember] at h
      cases h
    | some member =>
      simp only [hmember] at h
      obtain ⟨claimed, hclaimed, h⟩ := except_bind_eq_ok.mp h
      obtain ⟨rfl, rfl⟩ := Prod.mk.inj (Except.ok.inj h)
      have hid : claimed.releaseId = (candidate.claim lease later).id := claimedRelease_ok hclaimed
      rw [Option.map_some, show claimed.releaseId = candidate.id from hid]
      refine changes_updateWhere (fun i hi => ?_) fun r hr => ?_
      · obtain rfl := Option.some.inj hi
        exact mem_map_of_mem hmem
      · by_cases hid : r.id = candidate.id
        · obtain rfl := eq_of_key hids hr hmem hid
          rw [if_pos (decide_eq_true rfl)]
          exact .taken rfl (hunfinished.imp_right And.left) halone
        · rw [if_neg (by simpa using hid)]
          exact fun h => hid (Option.some.inj h).symm

end Calls

/-! ## The invariant -/

/-- The lease of a release: one that is worked on has an owner, a token and an end. -/
structure ExecutionRelease.Leased (r : ExecutionRelease) : Prop where
  id_pos : 1 ≤ r.id
  attempts : r.attemptCount = r.fenceToken
  lease : r.status = .processing → ∃ lease : LeaseRequest, ∃ expiry,
    r.leaseOwner = some lease.owner ∧ r.leaseToken = some lease.token ∧
      r.leaseExpiresAt = some expiry

/-- A release and its members agree: the members below the next ordinal are the complete ones. The
fence token counts the claims. -/
structure ReleaseTables.RowSound (db : ReleaseTables) (claims : List ℕ) (r : ExecutionRelease) :
    Prop where
  evaluated : (db.eventOf r).isSome
  counters : r.nextExecutionOrdinal ≤ r.memberCount ∧
    (r.status = .complete ↔ r.nextExecutionOrdinal = r.memberCount)
  ordinals : (db.members.filter fun m => m.releaseId = r.id).map ExecutionMember.executionOrdinal =
    List.range r.memberCount
  progress : ∀ m ∈ db.members, m.releaseId = r.id →
    (m.status = .complete ↔ m.executionOrdinal < r.nextExecutionOrdinal)
  fences : r.fenceToken = claims.count r.id
  leased : r.Leased

/-- Every release agrees with its members, and one of an event is worked on at most. -/
structure ReleaseTables.Sound (db : ReleaseTables) (claims : List ℕ) : Prop where
  ids : (db.releases.map ExecutionRelease.id).Nodup
  processing : ∀ r ∈ db.releases, ∀ q ∈ db.releases, r.status = .processing →
    q.status = .processing → db.eventOf r = db.eventOf q → r = q
  rows : ∀ r ∈ db.releases, db.RowSound claims r
  owners : ∀ m ∈ db.members, m.releaseId ∈ db.releases.map ExecutionRelease.id
  claimed : ∀ i ∈ claims, i ∈ db.releases.map ExecutionRelease.id

section Change

variable {db db' : ReleaseTables} {claimed : Option ℕ} {claims : List ℕ}
  {r r' q q' : ExecutionRelease}

theorem ExecutionRelease.Change.kept (h : r.Change db claimed r') :
    r'.id = r.id ∧ r'.readinessEvaluationId = r.readinessEvaluationId ∧
      r'.memberCount = r.memberCount ∧ r'.nextExecutionOrdinal = r.nextExecutionOrdinal := by
  cases h <;> exact ⟨rfl, rfl, rfl, rfl⟩

theorem ExecutionRelease.Change.complete_iff (h : r.Change db claimed r') :
    r'.status = .complete ↔ r.status = .complete := by
  cases h with
  | same => exact Iff.rfl
  | superseded _ hpending => simp [ExecutionRelease.supersede, hpending]
  | taken _ hunfinished => rcases hunfinished with h | h <;> simp [ExecutionRelease.claim, h]
  | renewed => exact Iff.rfl
  | failed _ hprocessing => simp [hprocessing]

theorem ExecutionRelease.Change.fenceToken_eq (h : r.Change db claimed r') :
    r'.fenceToken = r.fenceToken + claimed.toList.count r.id := by
  cases h with
  | same hother | superseded hother | renewed hother | failed hother =>
    have hcount : claimed.toList.count r.id = 0 := by
      rw [count_eq_zero, Option.mem_toList]
      exact hother
    rw [hcount]
    rfl
  | taken hthis =>
    rw [hthis, Option.toList_some, count_singleton_self]
    rfl

/-- What is processing after a call was so before, or was taken with no other at work on its
event. -/
theorem ExecutionRelease.Change.processing_cases (h : r.Change db claimed r')
    (hprocessing : r'.status = .processing) :
    (r.status = .processing ∧ claimed ≠ some r.id) ∨
    claimed = some r.id ∧ ∀ q ∈ db.releases, q.id ≠ r.id → q.status = .processing →
      db.eventOf q ≠ db.eventOf r := by
  cases h with
  | same hother => exact .inl ⟨hprocessing, hother⟩
  | superseded => simp [ExecutionRelease.supersede] at hprocessing
  | taken hthis _ halone => exact .inr ⟨hthis, halone⟩
  | renewed hother => exact .inl ⟨hprocessing, hother⟩
  | failed => simp at hprocessing

theorem ExecutionRelease.Change.leased (h : r.Change db claimed r') (hr : r.Leased) :
    r'.Leased := by
  obtain ⟨hid, hattempts, hlease⟩ := hr
  cases h with
  | same => exact ⟨hid, hattempts, hlease⟩
  | superseded => exact ⟨hid, hattempts, fun h => by cases h⟩
  | taken => exact ⟨hid, congrArg (· + 1) hattempts, fun _ => ⟨_, _, rfl, rfl, rfl⟩⟩
  | renewed _ hprocessing =>
    obtain ⟨lease, -, howner, htoken, -⟩ := hlease hprocessing
    exact ⟨hid, hattempts, fun _ => ⟨lease, _, howner, htoken, rfl⟩⟩
  | failed => exact ⟨hid, hattempts, fun h => by cases h⟩

theorem ReleaseTables.eventOf_congr (hdb : db'.evaluations = db.evaluations)
    (h : r'.readinessEvaluationId = r.readinessEvaluationId) : db'.eventOf r' = db.eventOf r := by
  rw [ReleaseTables.eventOf, ReleaseTables.eventOf, hdb, h]

theorem ReleaseTables.Sound.processing_of_change (hs : db.Sound claims) (hr : r ∈ db.releases)
    (hq : q ∈ db.releases) (hr' : r.Change db claimed r') (hq' : q.Change db claimed q')
    (hrp : r'.status = .processing) (hqp : q'.status = .processing)
    (hevent : db.eventOf r = db.eventOf q) : r = q := by
  by_contra hne
  have hid : r.id ≠ q.id := fun h => hne (eq_of_key hs.ids hr hq h)
  rcases hr'.processing_cases hrp with ⟨hrold, -⟩ | ⟨hrthis, hralone⟩
  · rcases hq'.processing_cases hqp with ⟨hqold, -⟩ | ⟨-, hqalone⟩
    · exact hne (hs.processing r hr q hq hrold hqold hevent)
    · exact hqalone r hr hid hrold hevent
  · rcases hq'.processing_cases hqp with ⟨hqold, -⟩ | ⟨hqthis, -⟩
    · exact hralone q hq hid.symm hqold hevent.symm
    · exact hid (Option.some.inj (hrthis.symm.trans hqthis))

theorem ReleaseTables.Sound.of_changes (hs : db.Sound claims) (h : Changes db claimed db') :
    db'.Sound (claims ++ claimed.toList) := by
  obtain ⟨⟨g, hreleases, hg⟩, hclaimed, hmembers, hevaluations⟩ := h
  have hids : db'.releases.map ExecutionRelease.id = db.releases.map ExecutionRelease.id := by
    rw [hreleases, map_map]
    exact map_congr_left fun r hr => (hg r hr).kept.1
  have hmem {r' : ExecutionRelease} (hr' : r' ∈ db'.releases) :
      ∃ r ∈ db.releases, g r = r' := mem_map.mp (hreleases ▸ hr')
  have hevent {r : ExecutionRelease} (hr : r ∈ db.releases) : db'.eventOf (g r) = db.eventOf r :=
    ReleaseTables.eventOf_congr hevaluations (hg r hr).kept.2.1
  refine ⟨hids ▸ hs.ids, ?_, ?_, ?_, ?_⟩
  · intro r' hr' q' hq' hrp hqp hevents
    obtain ⟨r, hr, rfl⟩ := hmem hr'
    obtain ⟨q, hq, rfl⟩ := hmem hq'
    rw [hevent hr, hevent hq] at hevents
    rw [hs.processing_of_change hr hq (hg r hr) (hg q hq) hrp hqp hevents]
  · intro r' hr'
    obtain ⟨r, hr, rfl⟩ := hmem hr'
    obtain ⟨hid, -, hcount, hnext⟩ := (hg r hr).kept
    have hrow := hs.rows r hr
    constructor
    · rw [hevent hr]
      exact hrow.evaluated
    · rw [(hg r hr).complete_iff, hnext, hcount]
      exact hrow.counters
    · rw [hmembers, hid, hcount]
      exact hrow.ordinals
    · rw [hmembers, hid, hnext]
      exact hrow.progress
    · rw [(hg r hr).fenceToken_eq, hid, count_append, hrow.fences]
    · exact (hg r hr).leased hrow.leased
  · rw [hmembers, hids]
    exact hs.owners
  · intro i hi
    rw [hids]
    cases mem_append.mp hi with
    | inl hi => exact hs.claimed i hi
    | inr hi => exact hclaimed i (Option.mem_toList.mp hi)

theorem ReleaseTables.Sound.of_unclaimed (hs : db.Sound claims) (h : Changes db none db') :
    db'.Sound claims := by
  have := hs.of_changes h
  rwa [Option.toList_none, append_nil] at this

end Change

/-! ## Executing a member -/

variable {m : ExecutionMember}

section Advance

variable {db db' : ReleaseTables} {claims : List ℕ} {r : ExecutionRelease}
  {releaseId ordinal fenceToken : ℕ}

theorem ExecutionRelease.advance_complete_iff :
    r.advance.status = .complete ↔ r.nextExecutionOrdinal + 1 = r.memberCount := by
  simp [ExecutionRelease.advance]

theorem ExecutionRelease.Leased.advance (h : r.Leased) (hprocessing : r.status = .processing) :
    r.advance.Leased := by
  refine ⟨h.id_pos, h.attempts, fun hopen => ?_⟩
  have hnot : ¬ r.nextExecutionOrdinal + 1 = r.memberCount := fun hc => by
    rw [advance_complete_iff.mpr hc] at hopen
    cases hopen
  simp only [ExecutionRelease.advance, if_neg hnot]
  exact h.lease hprocessing

theorem pendingMemberAt_iff : pendingMemberAt releaseId ordinal m ↔
      m.releaseId = releaseId ∧ m.executionOrdinal = ordinal ∧ m.status = .pending := by
  simp [pendingMemberAt, and_assoc]

theorem ReleaseTables.RowSound.progress_advance (hs : db.RowSound claims r)
    (hm : m ∈ db.members) (hid : m.releaseId = r.id) (fenceToken : ℕ) :
    ((if pendingMemberAt r.id r.nextExecutionOrdinal m then m.completeMember fenceToken
      else m).status = .complete ↔ m.executionOrdinal < r.nextExecutionOrdinal + 1) := by
  have hprogress := hs.progress m hm hid
  by_cases hp : pendingMemberAt r.id r.nextExecutionOrdinal m
  · rw [if_pos hp]
    have hordinal := (pendingMemberAt_iff.mp hp).2.1
    simp only [ExecutionMember.completeMember, true_iff]
    omega
  · rw [if_neg hp, hprogress]
    have hne : m.executionOrdinal ≠ r.nextExecutionOrdinal := by
      intro hordinal
      refine hp (pendingMemberAt_iff.mpr ⟨hid, hordinal, ?_⟩)
      cases hstatus : m.status with
      | pending => rfl
      | complete =>
        have hlt := hprogress.mp hstatus
        omega
    omega

/-- What an advance does to the release it owns. -/
structure Executed (db : ReleaseTables) (r : ExecutionRelease) (fenceToken : ℕ)
    (db' : ReleaseTables) : Prop where
  mem : r ∈ db.releases
  processing : r.status = .processing
  ids : db'.releases.map ExecutionRelease.id = db.releases.map ExecutionRelease.id
  releases : ∀ q ∈ db'.releases, q = r.advance ∨ q ∈ db.releases ∧ q.id ≠ r.id
  members : db'.members = updateWhere (pendingMemberAt r.id r.nextExecutionOrdinal)
    (ExecutionMember.completeMember fenceToken) db.members
  evaluations : db'.evaluations = db.evaluations

theorem executed_of_ownedAt (hids : (db.releases.map ExecutionRelease.id).Nodup)
    {clock : ℤ}
    (hr : r ∈ db.releases) (howned : r.ownedAt releaseId ordinal leaseToken fenceToken clock) :
    Executed db r fenceToken { db with
      members := updateWhere (pendingMemberAt releaseId ordinal)
        (ExecutionMember.completeMember fenceToken) db.members
      releases := updateWhere
        (ExecutionRelease.ownedAt releaseId ordinal leaseToken fenceToken clock)
        ExecutionRelease.advance db.releases } := by
  obtain ⟨rfl, hprocessing, rfl, -⟩ := ExecutionRelease.ownedAt_iff.mp howned
  refine ⟨hr, hprocessing, updateWhere_map fun _ _ _ => rfl, ?_, rfl, rfl⟩
  intro q' hq'
  obtain ⟨q, hq, rfl⟩ := mem_updateWhere.mp hq'
  -- the fence fits no other release
  by_cases howns : q.ownedAt r.id r.nextExecutionOrdinal leaseToken fenceToken clock
  · rw [if_pos howns, eq_of_key hids hq hr (ExecutionRelease.ownedAt_iff.mp howns).1]
    exact .inl rfl
  · rw [if_neg howns]
    exact .inr ⟨hq, fun hid => howns (eq_of_key hids hq hr hid ▸ howned)⟩

theorem Executed.eventOf_eq (h : Executed db r fenceToken db') (q : ExecutionRelease) :
    db'.eventOf q = db.eventOf q :=
  ReleaseTables.eventOf_congr h.evaluations rfl

theorem Executed.mem_members (h : Executed db r fenceToken db')
    {m' : ExecutionMember} (hm' : m' ∈ db'.members) :
    ∃ m ∈ db.members, m'.releaseId = m.releaseId ∧ m'.executionOrdinal = m.executionOrdinal ∧
      m' = if pendingMemberAt r.id r.nextExecutionOrdinal m then m.completeMember fenceToken
        else m := by
  rw [h.members] at hm'
  obtain ⟨m, hm, rfl⟩ := mem_updateWhere.mp hm'
  refine ⟨m, hm, ?_, ?_, rfl⟩ <;> split_ifs <;> rfl

theorem Executed.ordinals_eq (h : Executed db r fenceToken db') (i : ℕ) :
    (db'.members.filter fun m => m.releaseId = i).map ExecutionMember.executionOrdinal =
      (db.members.filter fun m => m.releaseId = i).map ExecutionMember.executionOrdinal := by
  rw [h.members, updateWhere_filter_map (f := ExecutionMember.completeMember fenceToken)
    (fun _ => rfl) fun _ => rfl]

theorem ReleaseTables.Sound.processing_of_executed (hs : db.Sound claims)
    (h : Executed db r fenceToken db') : ∀ p ∈ db'.releases, ∀ q ∈ db'.releases,
      p.status = .processing → q.status = .processing → db'.eventOf p = db'.eventOf q → p = q := by
  intro p hp q hq hpp hqp hevent
  rw [h.eventOf_eq, h.eventOf_eq] at hevent
  rcases h.releases p hp with rfl | ⟨hp, hpid⟩
  · rcases h.releases q hq with rfl | ⟨hq, hqid⟩
    · rfl
    · exact absurd (congrArg _ (hs.processing r h.mem q hq h.processing hqp hevent)) hqid.symm
  · rcases h.releases q hq with rfl | ⟨hq, hqid⟩
    · exact absurd (congrArg _ (hs.processing p hp r h.mem hpp h.processing hevent)) hpid
    · exact hs.processing p hp q hq hpp hqp hevent

theorem ReleaseTables.RowSound.advance (hrow : db.RowSound claims r)
    (h : Executed db r fenceToken db') : db'.RowSound claims r.advance where
  evaluated := (congrArg _ (h.eventOf_eq r)).trans hrow.evaluated
  counters := by
    have hne : r.nextExecutionOrdinal ≠ r.memberCount := by
      intro hlast
      have hcomplete := hrow.counters.2.mpr hlast
      rw [h.processing] at hcomplete
      cases hcomplete
    exact ⟨Nat.succ_le_of_lt (lt_of_le_of_ne hrow.counters.1 hne),
      ExecutionRelease.advance_complete_iff⟩
  ordinals := h.ordinals_eq _ ▸ hrow.ordinals
  progress := by
    intro m' hm' hid
    obtain ⟨m, hm, hrelease, hordinal, hm_eq⟩ := h.mem_members hm'
    rw [hordinal, hm_eq]
    exact hrow.progress_advance hm (hrelease ▸ hid) fenceToken
  fences := hrow.fences
  leased := hrow.leased.advance h.processing

theorem ReleaseTables.RowSound.other {q : ExecutionRelease} (hrow : db.RowSound claims q)
    (h : Executed db r fenceToken db') (hq : q.id ≠ r.id) : db'.RowSound claims q where
  evaluated := (congrArg _ (h.eventOf_eq q)).trans hrow.evaluated
  counters := hrow.counters
  ordinals := h.ordinals_eq _ ▸ hrow.ordinals
  progress := by
    intro m' hm' hid
    obtain ⟨m, hm, hrelease, hordinal, hm_eq⟩ := h.mem_members hm'
    rw [hrelease] at hid
    have hnot : ¬ pendingMemberAt r.id r.nextExecutionOrdinal m := fun hp =>
      hq (hid.symm.trans (pendingMemberAt_iff.mp hp).1)
    rw [hordinal, hm_eq, if_neg hnot]
    exact hrow.progress m hm hid
  fences := hrow.fences
  leased := hrow.leased

theorem ReleaseTables.Sound.of_executed (hs : db.Sound claims)
    (h : Executed db r fenceToken db') : db'.Sound claims := by
  refine ⟨h.ids ▸ hs.ids, hs.processing_of_executed h, fun q hq => ?_, fun m' hm' => ?_,
    h.ids ▸ hs.claimed⟩
  · rcases h.releases q hq with rfl | ⟨hq, hqid⟩
    · exact (hs.rows r h.mem).advance h
    · exact (hs.rows q hq).other h hqid
  · obtain ⟨m, hm, hrelease, -⟩ := h.mem_members hm'
    rw [h.ids, hrelease]
    exact hs.owners m hm

end Advance

/-! ## New evidence and new releases -/

section Evidence

variable {db db' : ReleaseTables} {claims : List ℕ} {evaluation : ReadinessEvaluation}
  {releaseId : ℕ} {orderedTransactionIds : List String}

theorem ReleaseTables.Sound.of_eventOf_eq (hs : db.Sound claims)
    (hreleases : db'.releases = db.releases) (hmembers : db'.members = db.members)
    (hevent : ∀ r ∈ db.releases, db'.eventOf r = db.eventOf r) : db'.Sound claims := by
  refine ⟨hreleases ▸ hs.ids, ?_, ?_, hreleases ▸ hmembers ▸ hs.owners, hreleases ▸ hs.claimed⟩
  · intro r hr q hq hrp hqp heq
    rw [hreleases] at hr hq
    rw [hevent r hr, hevent q hq] at heq
    exact hs.processing r hr q hq hrp hqp heq
  · intro r hr
    rw [hreleases] at hr
    have hrow := hs.rows r hr
    exact ⟨hevent r hr ▸ hrow.evaluated, hrow.counters, hmembers ▸ hrow.ordinals,
      hmembers ▸ hrow.progress, hrow.fences, hrow.leased⟩

theorem eventOf_append {r : ExecutionRelease}
    (hdb : db'.evaluations = db.evaluations ++ [evaluation]) (hr : (db.eventOf r).isSome) :
    db'.eventOf r = db.eventOf r := by
  unfold ReleaseTables.eventOf at hr ⊢
  rw [Option.isSome_map] at hr
  obtain ⟨e, he⟩ := Option.isSome_iff_exists.mp hr
  have hfind : row? ReadinessEvaluation.id db'.evaluations r.readinessEvaluationId = some e := by
    rw [hdb, row?, List.find?_append]
    rw [row?] at he
    rw [he, Option.some_or]
  rw [hfind, he]

theorem newMembers_ordinals :
    (newMembers releaseId orderedTransactionIds).map ExecutionMember.executionOrdinal =
      List.range orderedTransactionIds.length := by
  refine ext_getElem (by simp [newMembers]) fun i _ _ => ?_
  simp [newMembers]

theorem mem_newMembers (h : m ∈ newMembers releaseId orderedTransactionIds) :
    m.releaseId = releaseId ∧ m.status = .pending := by
  obtain ⟨i, hi, rfl⟩ := mem_mapIdx.mp h
  exact ⟨rfl, rfl⟩

theorem filter_newMembers {releaseId i : ℕ} :
    (newMembers releaseId orderedTransactionIds).filter (fun m => m.releaseId = i) =
      if releaseId = i then newMembers releaseId orderedTransactionIds else [] := by
  by_cases hi : releaseId = i
  · rw [if_pos hi, filter_eq_self]
    intro m hm
    simp [(mem_newMembers hm).1, hi]
  · rw [if_neg hi, filter_eq_nil_iff]
    intro m hm
    simp [(mem_newMembers hm).1, hi]

theorem materialize_ok (h : materialize releaseId evaluation db = .ok db') :
    db' = db ∨ evaluation.orderedTransactionIds ≠ [] ∧
      db' = db.withRelease releaseId evaluation := by
  unfold materialize at h
  split_ifs at h with _ hempty _
  · exact .inl (Except.ok.inj h).symm
  · exact .inr ⟨hempty, (Except.ok.inj h).symm⟩

theorem ReleaseTables.Sound.rowSound_newRelease (hs : db.Sound claims) (hpos : 1 ≤ releaseId)
    (hfresh : releaseId ∉ db.releases.map ExecutionRelease.id)
    (hevaluation : row? ReadinessEvaluation.id db.evaluations evaluation.id = some evaluation)
    (hmembers : evaluation.orderedTransactionIds ≠ []) :
    (db.withRelease releaseId evaluation).RowSound claims (newRelease releaseId evaluation) := by
  have hnone : db.members.filter (fun m => m.releaseId = releaseId) = [] := by
    rw [filter_eq_nil_iff]
    intro m hm hid
    exact hfresh (by simpa [of_decide_eq_true hid] using hs.owners m hm)
  refine ⟨?_, ⟨Nat.zero_le _, ?_⟩, ?_, fun m hm hid => ?_,
    (count_eq_zero.mpr fun h => hfresh (hs.claimed releaseId h)).symm,
    hpos, rfl, fun h => by cases h⟩
  · simp only [ReleaseTables.eventOf, ReleaseTables.withRelease, newRelease, hevaluation,
      Option.map_some, Option.isSome_some]
  · have hlength := length_pos_iff.mpr hmembers
    simp only [newRelease, reduceCtorEq, false_iff]
    omega
  · rw [ReleaseTables.withRelease, filter_append, filter_newMembers, newRelease, hnone,
      if_pos rfl, nil_append]
    exact newMembers_ordinals
  · rcases mem_append.mp hm with hm | hm
    · have hid : m.releaseId = releaseId := hid
      exact absurd (hid ▸ hs.owners m hm) hfresh
    · simp [(mem_newMembers hm).2, newRelease]

theorem ReleaseTables.Sound.of_withRelease (hs : db.Sound claims) (hpos : 1 ≤ releaseId)
    (hfresh : releaseId ∉ db.releases.map ExecutionRelease.id)
    (hevaluation : row? ReadinessEvaluation.id db.evaluations evaluation.id = some evaluation)
    (hmembers : evaluation.orderedTransactionIds ≠ []) :
    (db.withRelease releaseId evaluation).Sound claims := by
  have hmem {r : ExecutionRelease} (hr : r ∈ (db.withRelease releaseId evaluation).releases) :
      (r ∈ db.releases ∧ r.id ≠ releaseId) ∨ r = newRelease releaseId evaluation := by
    rw [ReleaseTables.withRelease, mem_append, mem_singleton] at hr
    rcases hr with hr | hr
    · exact .inl ⟨hr, fun h => hfresh (h ▸ mem_map_of_mem hr)⟩
    · exact .inr hr
  have hids : (db.withRelease releaseId evaluation).releases.map ExecutionRelease.id =
      db.releases.map ExecutionRelease.id ++ [releaseId] := by
    rw [ReleaseTables.withRelease, map_append]
    rfl
  constructor
  · rw [hids, nodup_append]
    refine ⟨hs.ids, nodup_singleton _, fun i hi j hj hij => hfresh ?_⟩
    rwa [← mem_singleton.mp hj, ← hij]
  · intro r hr q hq hrp hqp hevent
    rcases hmem hr with ⟨hr, -⟩ | rfl
    · rcases hmem hq with ⟨hq, -⟩ | rfl
      · exact hs.processing r hr q hq hrp hqp hevent
      · cases hqp
    · cases hrp
  · intro r hr
    rcases hmem hr with ⟨hr, hid⟩ | rfl
    · have hrow := hs.rows r hr
      refine ⟨hrow.evaluated, hrow.counters, ?_, fun m hm hmid => ?_, hrow.fences, hrow.leased⟩
      · rw [ReleaseTables.withRelease, filter_append, filter_newMembers, if_neg hid.symm,
          append_nil]
        exact hrow.ordinals
      · rcases mem_append.mp hm with hm | hm
        · exact hrow.progress m hm hmid
        · exact absurd (hmid.symm.trans (mem_newMembers hm).1) hid
    · exact hs.rowSound_newRelease hpos hfresh hevaluation hmembers
  · intro m hm
    rw [hids, mem_append]
    rcases mem_append.mp hm with hm | hm
    · exact .inl (hs.owners m hm)
    · exact .inr (mem_singleton.mpr (mem_newMembers hm).1)
  · intro i hi
    rw [hids]
    exact mem_append_left _ (hs.claimed i hi)

end Evidence

/-! ## Whole runs -/

section Runs

variable {s t : ReleaseState} {a : ReleaseStep}

theorem ReleaseTables.Sound.step (hs : s.db.Sound s.claims)
    (h : releaseStep s a = some t) : t.db.Sound t.claims := by
  cases a with
  | claimNext lease locked elapsed =>
    obtain rfl := Option.some.inj h
    have hstart := hs.of_unclaimed (supersede_changes s.db)
    cases hresult : claimNext lease s.clock (s.clock + elapsed) locked s.db with
    | error e => simpa [hresult, committed, claimedId] using hs
    | ok result => simpa [hresult, committed, claimedId] using
        hstart.of_changes (claimNext_changes hstart.ids hresult)
  | renewLease releaseId lease fenceToken elapsed =>
    obtain rfl := Option.some.inj h
    exact committed_of (P := (ReleaseTables.Sound · s.claims)) hs fun _ _ hresult =>
      hs.of_unclaimed (renewLease_changes hresult)
  | advanceMember releaseId ordinal leaseToken fenceToken elapsed =>
    obtain rfl := Option.some.inj h
    refine committed_of (P := (ReleaseTables.Sound · s.claims)) hs fun _ _ hresult => ?_
    rcases advanceMember_ok hresult with rfl | ⟨-, ⟨r, hr, howned⟩, rfl⟩
    · exact hs
    · exact hs.of_executed (executed_of_ownedAt hs.ids hr howned)
  | failRelease releaseId ordinal leaseToken fenceToken reason =>
    obtain rfl := Option.some.inj h
    exact committed_of (P := (ReleaseTables.Sound · s.claims)) hs fun _ _ hresult =>
      hs.of_unclaimed (failRelease_changes hresult)
  | openEvent eventId =>
    simp only [releaseStep, Option.ite_none_left_eq_some, Option.some.injEq] at h
    obtain ⟨-, rfl⟩ := h
    exact hs.of_eventOf_eq rfl rfl fun r _ => rfl
  | recordReadiness evaluationId eventId status ids =>
    simp only [releaseStep, Option.ite_none_left_eq_some, Option.map_eq_some_iff] at h
    obtain ⟨-, event, -, rfl⟩ := h
    exact hs.of_eventOf_eq rfl rfl fun r hr => eventOf_append rfl (hs.rows r hr).evaluated
  | materialize releaseId evaluationId =>
    simp only [releaseStep, Option.ite_none_left_eq_some, Option.map_eq_some_iff] at h
    obtain ⟨hid, evaluation, hevaluation, rfl⟩ := h
    obtain ⟨hpos, hfresh⟩ := not_or.mp hid
    cases hresult : materialize releaseId evaluation s.db with
    | error e => exact hs
    | ok db' =>
      rcases materialize_ok hresult with hsame | ⟨hmembers, hdb⟩
      · rw [hsame]
        exact hs
      · rw [hdb]
        exact hs.of_withRelease (Nat.one_le_iff_ne_zero.mpr hpos) hfresh
          (row?_key hevaluation ▸ hevaluation) hmembers
  | tick elapsed =>
    obtain rfl := Option.some.inj h
    exact hs

theorem ReleaseTables.Sound.of_reachable (hs : releaseMachine.Reachable s) :
    s.db.Sound s.claims := by
  refine hs.invariant (P := fun s => s.db.Sound s.claims) (fun s h => ?_)
    fun s a t hs h => hs.step h
  obtain ⟨hdb, hclaims⟩ := h
  rw [hdb, hclaims]
  constructor <;> simp

theorem countP_range_lt {k n : ℕ} (h : k ≤ n) : (List.range n).countP (· < k) = k := by
  obtain ⟨d, rfl⟩ := Nat.exists_eq_add_of_le h
  rw [range_add, countP_append, countP_eq_length.mpr, countP_eq_zero.mpr,
    length_range, Nat.add_zero]
  · simp
  · simp

/-- How many members of a release are complete. -/
def ReleaseTables.completeMembers (db : ReleaseTables) (r : ExecutionRelease) : ℕ :=
  db.members.countP fun m => m.releaseId = r.id && m.status = .complete

theorem ReleaseTables.RowSound.completeMembers_eq {db : ReleaseTables} {claims : List ℕ}
    {r : ExecutionRelease} (hs : db.RowSound claims r) :
    db.completeMembers r = r.nextExecutionOrdinal := by
  have hle := hs.counters.1
  calc db.completeMembers r
      = (db.members.filter fun m => m.releaseId = r.id).countP
          fun m => m.executionOrdinal < r.nextExecutionOrdinal := by
        rw [ReleaseTables.completeMembers, countP_filter]
        refine countP_congr fun m hm => ?_
        simp only [Bool.and_eq_true, decide_eq_true_eq]
        constructor
        · intro h
          exact ⟨(hs.progress m hm h.1).mp h.2, h.1⟩
        · intro h
          exact ⟨h.2, (hs.progress m hm h.2).mpr h.1⟩
    _ = (List.range r.memberCount).countP (· < r.nextExecutionOrdinal) := by
        rw [← hs.ordinals, countP_map]
        rfl
    _ = r.nextExecutionOrdinal := countP_range_lt hle

/-- The release and the fence token of a call under a lease. -/
def ReleaseStep.fencedCall : ReleaseStep → Option (ℕ × ℕ)
  | .renewLease releaseId _ fenceToken _ => some (releaseId, fenceToken)
  | .advanceMember releaseId _ _ fenceToken _ => some (releaseId, fenceToken)
  | .failRelease releaseId _ _ fenceToken _ => some (releaseId, fenceToken)
  | _ => none

/-- The releases and their members are those of before. -/
def ReleaseTables.Untouched (db db' : ReleaseTables) : Prop :=
  db'.releases = db.releases ∧ db'.members = db.members

theorem fencedCall_unchanged {releaseId fenceToken : ℕ}
    (hcall : a.fencedCall = some (releaseId, fenceToken)) (h : releaseStep s a = some t)
    (hfence : ∀ r ∈ s.db.releases, r.id = releaseId →
      r.fenceToken ≠ fenceToken ∨ ¬ r.leaseLive s.clock) : s.db.Untouched t.db := by
  -- no release is under the fence of the call
  have hfenced {r : ExecutionRelease} (hr : r ∈ s.db.releases) (hid : r.id = releaseId)
      (htoken : r.fenceToken = fenceToken) : ¬ r.leaseLive s.clock :=
    (hfence r hr hid).resolve_left (not_not.mpr htoken)
  have howned {ordinal : ℕ} {leaseToken : String} {r : ExecutionRelease} (hr : r ∈ s.db.releases) :
      ¬ r.ownedAt releaseId ordinal leaseToken fenceToken s.clock := by
    intro howns
    obtain ⟨hid, -, -, -, htoken, hlive⟩ := ExecutionRelease.ownedAt_iff.mp howns
    exact hfenced hr hid htoken hlive
  cases a with
  | renewLease id lease token elapsed =>
    obtain ⟨rfl, rfl⟩ := Prod.mk.inj (Option.some.inj hcall)
    obtain rfl := Option.some.inj h
    refine committed_of (P := s.db.Untouched) ⟨rfl, rfl⟩ fun _ _ hresult => ?_
    rw [renewLease_ok hresult]
    refine ⟨updateWhere_eq_self fun r hr => Bool.eq_false_iff.mpr fun hheld => ?_, rfl⟩
    obtain ⟨hid, -, -, -, htoken, hlive⟩ := ExecutionRelease.heldBy_iff.mp hheld
    exact hfenced hr hid htoken hlive
  | advanceMember id ordinal leaseToken token elapsed =>
    obtain ⟨rfl, rfl⟩ := Prod.mk.inj (Option.some.inj hcall)
    obtain rfl := Option.some.inj h
    refine committed_of (P := s.db.Untouched) ⟨rfl, rfl⟩ fun _ _ hresult => ?_
    rcases advanceMember_ok hresult with rfl | ⟨⟨r, hr, howns⟩, -⟩
    · exact ⟨rfl, rfl⟩
    · exact absurd howns (howned hr)
  | failRelease id ordinal leaseToken token reason =>
    obtain ⟨rfl, rfl⟩ := Prod.mk.inj (Option.some.inj hcall)
    obtain rfl := Option.some.inj h
    refine committed_of (P := s.db.Untouched) ⟨rfl, rfl⟩ fun _ _ hresult => ?_
    rw [failRelease_ok hresult]
    exact ⟨updateWhere_eq_self fun r hr => Bool.eq_false_iff.mpr (howned hr), rfl⟩
  | claimNext | openEvent | recordReadiness | materialize | tick => cases hcall

/-- In every reachable state the fence token of a release counts its claims and grows with each of
them, the complete members are those below the next ordinal, which is their number, a release is
complete exactly if all its members are, one release of an event is processing at most, and a call
under another fence token or an expired lease changes nothing. -/
theorem release_executes_in_order (hs : releaseMachine.Reachable s) :
    (∀ r ∈ s.db.releases, r.fenceToken = s.claims.count r.id ∧
      s.db.completeMembers r = r.nextExecutionOrdinal ∧
      (∀ m ∈ s.db.members, m.releaseId = r.id →
        (m.status = .complete ↔ m.executionOrdinal < r.nextExecutionOrdinal)) ∧
      (r.status = .complete ↔ s.db.completeMembers r = r.memberCount)) ∧
    (∀ a t i, releaseMachine.step s a = some t → t.claims = s.claims ++ [i] →
      ∀ r ∈ s.db.releases, ∀ r' ∈ t.db.releases, r.id = i → r'.id = i →
        r.fenceToken < r'.fenceToken) ∧
    (∀ r ∈ s.db.releases, ∀ q ∈ s.db.releases, r.status = .processing → q.status = .processing →
      s.db.eventOf r = s.db.eventOf q → r = q) ∧
    (∀ a t releaseId fenceToken, a.fencedCall = some (releaseId, fenceToken) →
      releaseMachine.step s a = some t →
      (∀ r ∈ s.db.releases, r.id = releaseId →
        r.fenceToken ≠ fenceToken ∨ ¬ r.leaseLive s.clock) →
      t.db.releases = s.db.releases ∧ t.db.members = s.db.members) := by
  have hsound := ReleaseTables.Sound.of_reachable hs
  refine ⟨fun r hr => ?_, ?_, hsound.processing, ?_⟩
  · have hrow := hsound.rows r hr
    refine ⟨hrow.fences, hrow.completeMembers_eq, hrow.progress, ?_⟩
    rw [hrow.completeMembers_eq]
    exact hrow.counters.2
  · intro a t i h hclaims r hr r' hr' hid hid'
    have hsound' := ReleaseTables.Sound.of_reachable (hs.step h)
    rw [(hsound.rows r hr).fences, (hsound'.rows r' hr').fences, hclaims, hid, hid', count_append,
      count_singleton_self]
    omega
  · intro a t releaseId fenceToken hcall h hfence
    exact fencedCall_unchanged hcall h hfence

end Runs

/-- A token of 64 digits. -/
def workerToken : String := "0123456789abcdef0123456789abcdef0123456789abcdef0123456789abcdef"

def minuteLease : LeaseRequest where
  owner := "worker"
  token := workerToken
  durationSeconds := 60
  owner_nonblank := by decide +kernel
  owner_length := by decide
  token_digest := by decide +kernel
  duration_bounds := by decide

/-- One member of two is complete, ten seconds after the claim. -/
def halfExecuted : ReleaseState :=
  { db :=
      { releases :=
          [{ id := 1, readinessEvaluationId := 1, memberCount := 2, status := .processing,
             nextExecutionOrdinal := 1, attemptCount := 1, fenceToken := 1,
             leaseOwner := some "worker", leaseToken := some workerToken,
             leaseExpiresAt := some 60 }]
        members :=
          [{ releaseId := 1, executionOrdinal := 0, transactionId := "a", status := .complete,
             completedFenceToken := some 1 },
           { releaseId := 1, executionOrdinal := 1, transactionId := "b" }]
        evaluations := [⟨1, 1, 1, .ready, ["a", "b"]⟩]
        events := [⟨1, 1, .ready⟩] }
    clock := 10
    claims := [1] }

theorem halfExecuted_reachable : releaseMachine.Reachable halfExecuted := by
  have hinit : releaseMachine.init ⟨⟨[], [], [], []⟩, 0, []⟩ := ⟨rfl, rfl⟩
  have hrun : releaseMachine.run ⟨⟨[], [], [], []⟩, 0, []⟩
      [.openEvent 1, .recordReadiness 1 1 .ready ["a", "b"], .materialize 1 1,
        .claimNext minuteLease [] 0, .advanceMember 1 0 workerToken 1 10] = some halfExecuted := by
    decide +kernel
  exact (Machine.Reachable.init hinit).run hrun

/-- One member is complete and the release is not. -/
theorem release_executes_in_order_half :
    releaseMachine.Reachable halfExecuted ∧
      ∀ r ∈ halfExecuted.db.releases, halfExecuted.db.completeMembers r = 1 ∧
        ¬ halfExecuted.db.completeMembers r = r.memberCount := by
  refine ⟨halfExecuted_reachable, fun r hr => ?_⟩
  have hrelease := (release_executes_in_order halfExecuted_reachable).1 r hr
  obtain rfl := mem_singleton.mp hr
  exact ⟨hrelease.2.1, fun h => absurd (hrelease.2.2.2.mpr h) (by decide)⟩

/-! ## Calls that return -/

variable {db : ReleaseTables} {claims : List ℕ} {r : ExecutionRelease}

theorem ReleaseTables.RowSound.countP_next (hs : db.RowSound claims r)
    (hopen : r.status ≠ .complete) :
    db.members.countP (pendingMemberAt r.id r.nextExecutionOrdinal) = 1 := by
  have hcounters := hs.counters
  have hlt : r.nextExecutionOrdinal < r.memberCount :=
    lt_of_le_of_ne hcounters.1 (mt hcounters.2.mpr hopen)
  calc db.members.countP (pendingMemberAt r.id r.nextExecutionOrdinal)
      = (db.members.filter fun m => m.releaseId = r.id).countP
          fun m => m.executionOrdinal = r.nextExecutionOrdinal := by
        rw [countP_filter]
        refine countP_congr fun m hm => ?_
        rw [pendingMemberAt_iff]
        simp only [Bool.and_eq_true, decide_eq_true_eq]
        constructor
        · rintro ⟨hid, hordinal, -⟩
          exact ⟨hordinal, hid⟩
        · rintro ⟨hordinal, hid⟩
          refine ⟨hid, hordinal, ?_⟩
          have hprogress := hs.progress m hm hid
          cases hstatus : m.status with
          | pending => rfl
          | complete => exact absurd (hprogress.mp hstatus) (by omega)
    _ = (List.range r.memberCount).count r.nextExecutionOrdinal := by
        rw [← hs.ordinals, List.count, countP_map]
        refine countP_congr fun m _ => ?_
        simp
    _ = 1 := count_eq_one_of_mem nodup_range (mem_range.mpr hlt)

theorem ReleaseTables.RowSound.find_next (hs : db.RowSound claims r) (hopen : r.status ≠ .complete)
    :
    ∃ m, db.members.find? (pendingMemberAt r.id r.nextExecutionOrdinal) = some m ∧
      m.executionOrdinal < r.memberCount := by
  have hcounters := hs.counters
  have hcount := hs.countP_next hopen
  cases hfind : db.members.find? (pendingMemberAt r.id r.nextExecutionOrdinal) with
  | none =>
    rw [countP_eq_zero.mpr (List.find?_eq_none.mp hfind)] at hcount
    cases hcount
  | some m =>
    refine ⟨m, rfl, ?_⟩
    rw [(pendingMemberAt_iff.mp (List.find?_some hfind)).2.1]
    exact lt_of_le_of_ne hcounters.1 (mt hcounters.2.mpr hopen)

/-- The checks on a claimed release pass: its lease is complete and its counters have moved. -/
theorem ExecutionRelease.Leased.exists_claimed (hr : r.Leased)
    (hprocessing : r.status = .processing) (hfence : 1 ≤ r.fenceToken) {m : ExecutionMember}
    (hm : m.executionOrdinal < r.memberCount) : ∃ claimed, claimedRelease r m = .ok claimed := by
  obtain ⟨lease, expiry, howner, htoken, hexpiry⟩ := hr.lease hprocessing
  have hdigest := isCanonicalDigest_of_isSha256Digest lease.token_digest
  have hstrip : strip lease.token = lease.token := by
    simp only [isCanonicalDigest, Bool.and_eq_true, decide_eq_true_eq] at hdigest
    exact hdigest.1.2
  have hne : lease.token ≠ "" := by
    intro h
    have hlength := lease.token_digest
    rw [h] at hlength
    exact absurd hlength (by decide)
  have hid := hr.id_pos
  have hattempts := hr.attempts
  unfold claimedRelease requirePositiveInteger requiredCanonicalText requireSha256Digest
  rw [howner, htoken, hexpiry]
  dsimp only
  rw [refuseIf_bind_of_not (by omega), refuseIf_bind_of_not (by omega),
    refuseIf_bind_of_not (by omega), refuseIf_bind_of_not (by omega),
    refuseIf_bind_of_not (by simp [lease.owner_nonblank]),
    refuseIf_bind_of_not (by simp [hstrip, hne]), refuseIf_bind_of_not (by simp [hdigest]),
    refuseIf_bind_of_not (by omega)]
  exact ⟨_, rfl⟩

theorem ReleaseTables.Sound.exists_claimNext (hs : db.Sound claims) (lease : LeaseRequest)
    (clock later : ℤ) (locked : List ℕ) :
    ∃ result, claimNext lease clock later locked db = .ok result := by
  have hstart := hs.of_unclaimed (supersede_changes db)
  unfold claimNext
  dsimp only
  cases hcandidate : claimCandidate clock locked (supersedeStalePendingReleases db) with
  | none => exact ⟨_, rfl⟩
  | some r =>
    obtain ⟨hr, hclaimable⟩ := mem_claimCandidate hcandidate
    have hopen : r.status ≠ .complete := by
      rcases (ReleaseTables.claimable_iff.mp hclaimable).2.1 with h | h <;> simp [h]
    obtain ⟨m, hfind, hordinal⟩ := (hstart.rows r hr).find_next hopen
    have hr' := (hstart.rows r hr).leased
    have hleased : (r.claim lease later).Leased :=
      ⟨hr'.id_pos, congrArg (· + 1) hr'.attempts, fun _ => ⟨lease, _, rfl, rfl, rfl⟩⟩
    obtain ⟨claimed, hclaimed⟩ :=
      hleased.exists_claimed rfl (Nat.le_add_left 1 r.fenceToken) hordinal
    dsimp only
    rw [hfind]
    dsimp only
    rw [hclaimed]
    exact ⟨_, rfl⟩

section Returns

variable {releaseId fenceToken : ℕ}

/-- The arguments of a call under a lease that are accepted. -/
structure WellFormedCall (releaseId : ℕ) (leaseToken : String) (fenceToken : ℕ) : Prop where
  release_pos : 1 ≤ releaseId
  token : isCanonicalDigest leaseToken
  fence_pos : 1 ≤ fenceToken

theorem requireLeaseArguments_bind (h : WellFormedCall releaseId leaseToken fenceToken) {α : Type}
    (f : Unit → Except Raised α) :
    (requireLeaseArguments releaseId leaseToken fenceToken >>= f) = f () := by
  have hok : requireLeaseArguments releaseId leaseToken fenceToken = .ok () := by
    unfold requireLeaseArguments requirePositiveInteger requireSha256Digest
    rw [refuseIf_bind_of_not (not_lt.mpr h.release_pos), refuseIf_bind_of_not (by simp [h.token]),
      refuseIf, if_neg (not_lt.mpr h.fence_pos)]
  rw [hok]
  rfl

theorem ExecutionRelease.leasedUnder_iff {r : ExecutionRelease} {clock : ℤ} :
    r.leasedUnder releaseId leaseToken fenceToken clock ↔
      r.id = releaseId ∧ r.status = .processing ∧ r.leaseToken = some leaseToken ∧
        r.fenceToken = fenceToken ∧ r.leaseLive clock := by
  simp [ExecutionRelease.leasedUnder, and_assoc]

theorem ReleaseTables.Sound.exists_loadOwnedNext {db : ReleaseTables} {claims : List ℕ}
    (hs : db.Sound claims) (hcall : WellFormedCall releaseId leaseToken fenceToken) (clock : ℤ) :
    ∃ claimed, loadOwnedNext releaseId leaseToken fenceToken clock db = .ok claimed ∧
      (claimed.isSome ↔
        ∃ r ∈ db.releases, r.leasedUnder releaseId leaseToken fenceToken clock) := by
  unfold loadOwnedNext
  rw [requireLeaseArguments_bind hcall]
  cases hfind : db.releases.find?
      (ExecutionRelease.leasedUnder releaseId leaseToken fenceToken clock) with
  | none => exact ⟨none, rfl, by simpa using List.find?_eq_none.mp hfind⟩
  | some r =>
    have hr := mem_of_find?_eq_some hfind
    have hunder := List.find?_some hfind
    obtain ⟨-, hprocessing, -, hfence, -⟩ := ExecutionRelease.leasedUnder_iff.mp hunder
    obtain ⟨m, hmember, hordinal⟩ := (hs.rows r hr).find_next (by simp [hprocessing])
    obtain ⟨claimed, hclaimed⟩ :=
      (hs.rows r hr).leased.exists_claimed hprocessing (hfence ▸ hcall.fence_pos) hordinal
    dsimp only
    rw [hmember]
    dsimp only
    rw [hclaimed]
    exact ⟨some claimed, rfl, iff_of_true rfl ⟨r, hr, hunder⟩⟩

/-- An advance of a sound table, in one equation: its member is there, so only the lease decides. -/
theorem ReleaseTables.Sound.advanceMember_cases {db : ReleaseTables} {claims : List ℕ}
    (hs : db.Sound claims) (hcall : WellFormedCall releaseId leaseToken fenceToken)
    (ordinal : ℕ) (clock later : ℤ) :
    ((∃ r ∈ db.releases, r.ownedAt releaseId ordinal leaseToken fenceToken clock) ∧
        (∃ r ∈ db.releases, r.ownedAt releaseId ordinal leaseToken fenceToken later) ∧
        ∃ outcome db', outcome ≠ .lostOwnership ∧
          advanceMember releaseId ordinal leaseToken fenceToken clock later db =
            .ok (outcome, db')) ∨
      ((∃ r ∈ db.releases, r.ownedAt releaseId ordinal leaseToken fenceToken clock) ∧
        (¬ ∃ r ∈ db.releases, r.ownedAt releaseId ordinal leaseToken fenceToken later) ∧
        advanceMember releaseId ordinal leaseToken fenceToken clock later db =
          .error (.valueError "owned corporate-action release did not advance")) ∨
      (¬ ∃ r ∈ db.releases, r.ownedAt releaseId ordinal leaseToken fenceToken clock) ∧
        advanceMember releaseId ordinal leaseToken fenceToken clock later db =
          .ok (.lostOwnership, db) := by
  unfold advanceMember
  rw [requireLeaseArguments_bind hcall]
  by_cases howned : ∃ r ∈ db.releases, r.ownedAt releaseId ordinal leaseToken fenceToken clock
  · obtain ⟨r, hr, howns⟩ := id howned
    obtain ⟨rfl, hprocessing, rfl, -⟩ := ExecutionRelease.ownedAt_iff.mp howns
    rw [if_neg (by simpa using ⟨r, hr, howns⟩),
      if_neg (not_not.mpr ((hs.rows r hr).countP_next (by simp [hprocessing])))]
    cases hfind : db.releases.find?
        (ExecutionRelease.ownedAt r.id r.nextExecutionOrdinal leaseToken fenceToken later) with
    | none =>
      exact .inr (.inl ⟨howned, by simpa using List.find?_eq_none.mp hfind, rfl⟩)
    | some owned =>
      refine .inl ⟨howned, ⟨owned, mem_of_find?_eq_some hfind, List.find?_some hfind⟩,
        _, _, ?_, rfl⟩
      split_ifs <;> simp
  · rw [if_pos (by simpa using howned)]
    exact .inr (.inr ⟨howned, rfl⟩)

end Returns

end LotusCore
