import LotusCore.Exec.Machine
import LotusCore.Exec.Raising
import LotusCore.Reprocessing.Jobs

/-!
# Replay obligations

A staged request is an obligation to replay a security from a date. It moves between rows: staging
coalesces it, a claim takes it, requeueing and stale recovery hand it to a pending row.

* `replayMachine`: producers, workers, recovery and the database clock, with the requests and the
  ends of jobs on record.
* `Covers`: a job stands for a request, or its end accounts for it.
* `Keeps`: what was covered stays covered.
* **`replay_obligations_kept`**: no request is ever lost.
* **`claim_normalization_redundant`**: staging leaves a claim nothing to merge.
-/

namespace LotusCore.Reprocessing

open Table Exec List

/-! ## Covered requests -/

inductive JobEnd
  | byOwner
  | overLimit (maxAttempts : ℕ)
  deriving DecidableEq, Repr

structure JobEnded where
  jobId : ℕ
  ended : JobEnd
  step : ℕ
  deriving DecidableEq, Repr

def Job.Active (j : Job) : Prop := j.status = .pending ∨ j.status = .processing

/-- The job has been ended in a way that accounts for a request made in step `n`: by its live owner
after the request, or failed with its attempts used up. -/
def Job.EndedFor (log : List JobEnded) (n : ℕ) (j : Job) : Prop :=
  (j.status = .complete ∨ j.status = .failed) ∧
    (∃ e ∈ log, e.jobId = j.id ∧ e.ended = .byOwner ∧ n < e.step) ∨
  j.status = .failed ∧ ∃ e ∈ log, ∃ maxAttempts, e.jobId = j.id ∧
    e.ended = .overLimit maxAttempts ∧ maxAttempts ≤ j.attemptCount

/-- A job stands for a request made in step `n`, or its end accounts for it. -/
def Covers (jobs : List Job) (log : List JobEnded) (n : ℕ) (securityId : String) (date : ℤ) :
    Prop :=
  ∃ j ∈ jobs, j.securityId = securityId ∧ j.earliestImpactedDate ≤ date ∧
    (j.Active ∨ j.EndedFor log n)

/-- What was covered stays covered. -/
def Keeps (n : ℕ) (jobs : List Job) (log : List JobEnded) (jobs' : List Job)
    (log' : List JobEnded) : Prop :=
  ∀ securityId date, Covers jobs log n securityId date → Covers jobs' log' n securityId date

variable {p : Job → Bool}

section Keeps

variable {n : ℕ} {jobs jobs' : List Job} {log log' : List JobEnded} {j : Job}

theorem Keeps.refl : Keeps n jobs log jobs log := fun _ _ h => h

theorem Keeps.trans {jobs'' : List Job} {log'' : List JobEnded} (h : Keeps n jobs log jobs' log')
    (h' : Keeps n jobs' log' jobs'' log'') : Keeps n jobs log jobs'' log'' :=
  fun securityId date hcovers => h' securityId date (h securityId date hcovers)

theorem Job.EndedFor.mono (hlog : log ⊆ log') (h : j.EndedFor log n) : j.EndedFor log' n := by
  rcases h with ⟨hended, e, he, h⟩ | ⟨hfailed, e, he, h⟩
  · exact .inl ⟨hended, e, hlog he, h⟩
  · exact .inr ⟨hfailed, e, hlog he, h⟩

/-- A job of the security that is pending from the date on. -/
def PendingFrom (jobs : List Job) (securityId : String) (date : ℤ) : Prop :=
  ∃ j ∈ jobs, j.status = .pending ∧ j.securityId = securityId ∧ j.earliestImpactedDate ≤ date

/-- A change of rows keeps what is covered if dates do not grow and a changed row is active, is
ended for the request, or leaves a pending row behind. -/
theorem keeps_updateWhere {f : Job → Job} (hlog : log ⊆ log')
    (hf : ∀ j ∈ jobs, p j → (f j).securityId = j.securityId ∧
      (f j).earliestImpactedDate ≤ j.earliestImpactedDate ∧
      ((f j).Active ∨ (f j).EndedFor log' n ∨
        PendingFrom (updateWhere p f jobs) j.securityId j.earliestImpactedDate)) :
    Keeps n jobs log (updateWhere p f jobs) log' := by
  intro securityId date ⟨j, hj, hsecurity, hdate, hcase⟩
  by_cases hpj : p j
  · obtain ⟨hfsecurity, hfdate, hfcase⟩ := hf j hj hpj
    have hmem : f j ∈ updateWhere p f jobs := mem_updateWhere.mpr ⟨j, hj, if_pos hpj⟩
    have hfdate := hfdate.trans hdate
    rcases hfcase with hactive | hended | ⟨k, hk, hpending, hksecurity, hkdate⟩
    · exact ⟨f j, hmem, hfsecurity.trans hsecurity, hfdate, .inl hactive⟩
    · exact ⟨f j, hmem, hfsecurity.trans hsecurity, hfdate, .inr hended⟩
    · exact ⟨k, hk, hksecurity.trans hsecurity, hkdate.trans hdate, .inl (.inl hpending)⟩
  · refine ⟨j, mem_updateWhere.mpr ⟨j, hj, if_neg hpj⟩, hsecurity, hdate, ?_⟩
    exact hcase.imp_right (Job.EndedFor.mono hlog)

end Keeps

/-! ## One pending job for each security -/

/-- Ids come from the sequence, and the unique index holds. -/
structure JobTable.Sound (table : JobTable) : Prop where
  ids : (table.jobs.map Job.id).Nodup
  sequence : ∀ j ∈ table.jobs, j.id < table.nextId
  pending : ∀ j ∈ table.jobs, ∀ k ∈ table.jobs, j.status = .pending → k.status = .pending →
    j.securityId = k.securityId → j = k

/-- The table stays sound, and what was covered stays covered. -/
structure JobTable.Kept (table table' : JobTable) : Prop where
  sound : table'.Sound
  keeps : ∀ n log, Keeps n table.jobs log table'.jobs log

section Sound

variable {table : JobTable} {n : ℕ} {log : List JobEnded} {clock : ℤ}

theorem JobTable.Sound.kept (hs : table.Sound) : table.Kept table := ⟨hs, fun _ _ => Keeps.refl⟩

theorem JobTable.Sound.of_rows (hs : table.Sound) {f : Job → Job} (hid : ∀ j, (f j).id = j.id)
    (hpending : ∀ j ∈ table.jobs, ∀ k ∈ table.jobs, (if p j then f j else j).status = .pending →
      (if p k then f k else k).status = .pending →
      (if p j then f j else j).securityId = (if p k then f k else k).securityId → j = k) :
    JobTable.Sound { table with jobs := updateWhere p f table.jobs } := by
  refine ⟨?_, ?_, ?_⟩
  · rw [updateWhere_map fun j _ _ => hid j]
    exact hs.ids
  · intro j' hj'
    obtain ⟨j, hj, rfl⟩ := mem_updateWhere.mp hj'
    have hrow : (if p j then f j else j).id = j.id := by
      split_ifs
      · exact hid j
      · rfl
    rw [hrow]
    exact hs.sequence j hj
  · intro j' hj' k' hk' hjp hkp hsecurity
    obtain ⟨j, hj, rfl⟩ := mem_updateWhere.mp hj'
    obtain ⟨k, hk, rfl⟩ := mem_updateWhere.mp hk'
    rw [hpending j hj k hk hjp hkp hsecurity]

theorem JobTable.Sound.of_updateWhere (hs : table.Sound) {f : Job → Job}
    (hid : ∀ j, (f j).id = j.id)
    (hpending : ∀ j ∈ table.jobs, p j → (f j).status = .pending →
      j.status = .pending ∧ (f j).securityId = j.securityId) :
    JobTable.Sound { table with jobs := updateWhere p f table.jobs } := by
  have hstatus (j : Job) (hj : j ∈ table.jobs) (h : (if p j then f j else j).status = .pending) :
      j.status = .pending ∧ (if p j then f j else j).securityId = j.securityId := by
    by_cases hp : p j
    · rw [if_pos hp] at h ⊢
      exact hpending j hj hp h
    · rw [if_neg hp] at h ⊢
      exact ⟨h, rfl⟩
  refine hs.of_rows hid fun j hj k hk hjp hkp hsecurity => ?_
  have hj_old := hstatus j hj hjp
  have hk_old := hstatus k hk hkp
  rw [hj_old.2, hk_old.2] at hsecurity
  exact hs.pending j hj k hk hj_old.1 hk_old.1 hsecurity

variable {j : Job}

theorem pendingFor_iff {securityId : String} :
    pendingFor securityId j ↔ j.status = .pending ∧ j.securityId = securityId := by
  simp [pendingFor]

/-! ### Staging -/

variable {securityId : String} {date : ℤ} {attempts : ℕ}

/-- What staging does: it coalesces with the pending job of the security, or appends one. -/
structure JobTable.Staged (table : JobTable) (securityId : String) (date : ℤ)
    (table' : JobTable) : Prop where
  kept : table.Sound → table.Kept table'
  pending : PendingFrom table'.jobs securityId date
  mem_iff : ∀ j, j.status ≠ .pending → (j ∈ table'.jobs ↔ j ∈ table.jobs)

theorem staged_coalesced (hany : table.jobs.any (pendingFor securityId)) :
    table.Staged securityId date { table with
      jobs := updateWhere (pendingFor securityId) (Job.coalesce date attempts) table.jobs } := by
  refine ⟨fun hs => ⟨?_, fun n log => ?_⟩, ?_, fun j hj => ⟨fun hmem => ?_, fun hmem => ?_⟩⟩
  · exact hs.of_updateWhere (fun _ => rfl) fun j _ hj _ => ⟨(pendingFor_iff.mp hj).1, rfl⟩
  · exact keeps_updateWhere (fun _ h => h) fun j _ hj =>
      ⟨rfl, min_le_left _ _, .inl (.inl (pendingFor_iff.mp hj).1)⟩
  · obtain ⟨j, hj, hp⟩ := any_eq_true.mp hany
    have hpending := pendingFor_iff.mp hp
    exact ⟨j.coalesce date attempts, mem_updateWhere.mpr ⟨j, hj, if_pos hp⟩, hpending.1,
      hpending.2, min_le_right _ _⟩
  · obtain ⟨k, hk, rfl⟩ := mem_updateWhere.mp hmem
    by_cases hp : pendingFor securityId k
    · rw [if_pos hp] at hj
      exact absurd (pendingFor_iff.mp hp).1 hj
    · rwa [if_neg hp]
  · exact mem_updateWhere_of_not hmem
      (Bool.eq_false_iff.mpr fun hp => hj (pendingFor_iff.mp hp).1)

theorem JobTable.Sound.append (hs : table.Sound)
    (hnone : ¬ table.jobs.any (pendingFor j.securityId)) (hid : j.id = table.nextId) :
    JobTable.Sound { jobs := table.jobs ++ [j], nextId := table.nextId + 1 } := by
  have hother (k : Job) (hk : k ∈ table.jobs) (hp : k.status = .pending) :
      k.securityId ≠ j.securityId := by
    intro h
    exact hnone (any_eq_true.mpr ⟨k, hk, pendingFor_iff.mpr ⟨hp, h⟩⟩)
  refine ⟨?_, fun k hk => ?_, fun k hk l hl hkp hlp hsecurity => ?_⟩
  · rw [map_append, nodup_append]
    refine ⟨hs.ids, nodup_singleton _, fun i hi k hk hik => ?_⟩
    obtain ⟨l, hl, rfl⟩ := mem_map.mp hi
    have hlt := hs.sequence l hl
    rw [hik, mem_singleton.mp hk, hid] at hlt
    exact lt_irrefl _ hlt
  · rcases mem_append.mp hk with hk | hk
    · exact Nat.lt_succ_of_lt (hs.sequence k hk)
    · rw [mem_singleton.mp hk, hid]
      exact Nat.lt_succ_self _
  · rcases mem_append.mp hk with hk | hk
    · rcases mem_append.mp hl with hl | hl
      · exact hs.pending k hk l hl hkp hlp hsecurity
      · rw [mem_singleton.mp hl] at hsecurity
        exact absurd hsecurity (hother k hk hkp)
    · rcases mem_append.mp hl with hl | hl
      · rw [mem_singleton.mp hk] at hsecurity
        exact absurd hsecurity.symm (hother l hl hlp)
      · rw [mem_singleton.mp hk, mem_singleton.mp hl]

theorem stage_staged : table.Staged securityId date
    (stageResetWatermarksJob securityId date attempts clock table).1 := by
  unfold stageResetWatermarksJob
  by_cases hany : table.jobs.any (pendingFor securityId)
  · rw [if_pos hany]
    exact staged_coalesced hany
  · rw [if_neg hany]
    refine ⟨fun hs => ⟨hs.append hany rfl, fun n log s d ⟨j, hj, h⟩ => ?_⟩, ?_, fun j hj => ?_⟩
    · exact ⟨j, mem_append_left _ hj, h⟩
    · exact ⟨_, mem_append_right _ mem_cons_self, rfl, rfl, le_refl _⟩
    · refine ⟨fun hmem => (mem_append.mp hmem).resolve_right fun hmem => ?_,
        mem_append_left _⟩
      rw [mem_singleton.mp hmem] at hj
      exact hj rfl

/-! ### Claims -/

theorem foldl_eq_of_forall_eq {α : Type} {op : α → α → α} {a : α} {l : List α} (hop : op a a = a)
    (h : ∀ x ∈ l, x = a) : l.foldl op a = a := by
  induction l with
  | nil => rfl
  | cons x rest ih =>
    rw [foldl_cons, h x mem_cons_self, hop]
    exact ih fun y hy => h y (mem_cons_of_mem _ hy)

theorem normalizePendingDuplicates_eq (hs : table.Sound) :
    normalizePendingDuplicates table.jobs = table.jobs := by
  unfold normalizePendingDuplicates
  conv_rhs => rw [← filterMap_some (l := table.jobs)]
  refine filterMap_congr fun j hj => ?_
  by_cases hpending : j.status ≠ .pending
  · rw [if_pos hpending]
  · rw [if_neg hpending]
    have hpending := not_not.mp hpending
    have honly (k : Job) (hk : k ∈ table.jobs.filter (pendingFor j.securityId)) : k = j := by
      rw [mem_filter, pendingFor_iff] at hk
      exact hs.pending k hk.1 j hj hk.2.1 hpending hk.2.2
    have hfirst : ¬ (table.jobs.filter (pendingFor j.securityId)).any
        fun k => k.priority < j.priority := by
      intro h
      obtain ⟨k, hk, hlt⟩ := any_eq_true.mp h
      rw [honly k hk] at hlt
      exact lt_irrefl _ (of_decide_eq_true hlt)
    dsimp only
    rw [if_neg hfirst, foldl_eq_of_forall_eq (min_self _), foldl_eq_of_forall_eq (max_self _)]
    · intro x hx
      obtain ⟨k, hk, rfl⟩ := mem_map.mp hx
      rw [honly k hk]
    · intro x hx
      obtain ⟨k, hk, rfl⟩ := mem_map.mp hx
      rw [honly k hk]

variable {jobs : List Job} {excluded locked : List ℕ}

theorem mem_claimCandidates {batchSize : ℕ}
    (h : j ∈ claimCandidates batchSize excluded locked jobs) :
    j ∈ jobs ∧ j.status = .pending := by
  have hmem := (perm_insertionSort _ _).mem_iff.mp (mem_of_mem_take h)
  rw [mem_filter] at hmem
  simp only [Bool.and_eq_true, decide_eq_true_eq] at hmem
  exact ⟨hmem.1, hmem.2.1.1⟩

variable {table' : JobTable}

theorem claim_kept (hs : table.Sound) {batchSize : ℕ} {owner token : String} {duration : ℤ}
    {normalize : Bool} {claimed : List Job}
    (h : findAndClaimJobs batchSize owner duration excluded normalize token locked clock table =
      .ok (claimed, table')) : table.Kept table' := by
  have hjobs : (if normalize then normalizePendingDuplicates table.jobs else table.jobs) =
      table.jobs := by
    cases normalize with
    | true => exact normalizePendingDuplicates_eq hs
    | false => rfl
  unfold findAndClaimJobs at h
  simp only [hjobs] at h
  split_ifs at h with howner hduration
  · obtain ⟨-, rfl⟩ := Prod.mk.inj (Except.ok.inj h)
    have hp (j : Job) (hj : j ∈ table.jobs)
        (hany : (claimCandidates batchSize excluded locked table.jobs).any
          fun c => c.id = j.id) : j.status = .pending := by
      obtain ⟨c, hc, hid⟩ := any_eq_true.mp hany
      have hcandidate := mem_claimCandidates hc
      rw [← eq_of_key hs.ids hcandidate.1 hj (of_decide_eq_true hid)]
      exact hcandidate.2
    constructor
    · refine hs.of_updateWhere (fun _ => rfl) fun j hj hany hpending => ?_
      exact ⟨hp j hj hany, rfl⟩
    · intro n log
      exact keeps_updateWhere (fun _ h => h) fun j _ _ => ⟨rfl, le_refl _, .inl (.inr rfl)⟩

/-! ### Owned transitions -/

variable {jobId : ℕ} {token : String}

theorem Job.ownedBy_iff : j.ownedBy jobId token clock ↔ j.id = jobId ∧ j.status = .processing ∧
      j.leaseToken = some token ∧ j.leaseLive clock := by
  simp [Job.ownedBy, and_assoc]

variable {status : JobStatus} {reason : Option String}

theorem JobTable.Sound.of_leave (hs : table.Sound) (hstatus : status ≠ .pending) :
    JobTable.Sound { table with jobs := updateWhere p (Job.leave status reason) table.jobs } :=
  hs.of_updateWhere (fun _ => rfl) fun _ _ _ h => absurd h hstatus

theorem applyOwnedTransition_cases (jobId : ℕ) (status : JobStatus) (reason : Option String)
    (token : String) (clock : ℤ) (table : JobTable) :
    applyOwnedTransition jobId status reason token clock table =
      (.applied, { table with
        jobs := updateWhere (Job.ownedBy jobId token clock) (Job.leave status reason)
          table.jobs }) ∨
    (applyOwnedTransition jobId status reason token clock table).2 = table ∧
      (applyOwnedTransition jobId status reason token clock table).1 ≠ .applied := by
  unfold applyOwnedTransition
  split_ifs with hany
  · exact .inl rfl
  · refine .inr ⟨rfl, ?_⟩
    unfold classifyOwnedTransitionFailure
    cases row? Job.id table.jobs jobId with
    | none => simp
    | some j =>
      dsimp only
      split_ifs <;> simp

variable {outcome : TransitionOutcome}

theorem updateJobStatus_ok
    (h : updateJobStatus jobId status token reason clock table = .ok (outcome, table')) :
    (status = .complete ∨ status = .failed) ∧
      applyOwnedTransition jobId status reason token clock table = (outcome, table') := by
  unfold updateJobStatus at h
  split_ifs at h with h₁ h₂ h₃ h₄
  refine ⟨?_, Except.ok.inj h⟩
  by_contra hne
  exact h₂ (not_or.mp hne)

theorem renewLease_kept (hs : table.Sound) {duration : ℤ}
    (h : renewLease jobId token duration clock table = .ok (outcome, table')) :
    table.Kept table' := by
  unfold renewLease at h
  split_ifs at h with h₁ h₂ h₃
  · obtain ⟨-, rfl⟩ := Prod.mk.inj (Except.ok.inj h)
    constructor
    · exact hs.of_updateWhere (fun _ => rfl) fun j _ _ hpending => ⟨hpending, rfl⟩
    · intro n log
      refine keeps_updateWhere (fun _ h => h) fun j _ hj => ⟨rfl, le_refl _, .inl ?_⟩
      exact .inr (Job.ownedBy_iff.mp hj).2.1
  · obtain ⟨-, rfl⟩ := Prod.mk.inj (Except.ok.inj h)
    exact hs.kept

/-- Rows that are being processed can be completed once a pending row stands for them. -/
theorem keeps_leave {security : String}
    {bound : ℤ} (hp : ∀ j ∈ jobs, p j → j.status = .processing ∧ j.securityId = security ∧
      bound ≤ j.earliestImpactedDate)
    (hpending : PendingFrom jobs security bound) :
    Keeps n jobs log (updateWhere p (Job.leave .complete reason) jobs) log := by
  obtain ⟨k, hk, hkp, hksecurity, hkdate⟩ := hpending
  have hk' : k ∈ updateWhere p (Job.leave .complete reason) jobs := by
    refine mem_updateWhere_of_not hk ?_
    rw [← Bool.not_eq_true]
    intro hpk
    have hprocessing := (hp k hk hpk).1
    rw [hkp] at hprocessing
    cases hprocessing
  refine keeps_updateWhere (fun _ h => h) fun j hj hpj => ⟨rfl, le_refl _, .inr (.inr ?_)⟩
  obtain ⟨-, hsecurity, hbound⟩ := hp j hj hpj
  exact ⟨k, hk', hkp, hksecurity.trans hsecurity.symm, hkdate.trans hbound⟩

theorem foldl_min_le {a : ℤ} {l : List ℤ} : l.foldl min a ≤ a := by
  induction l generalizing a with
  | nil => exact le_refl a
  | cons x rest ih => exact ih.trans (min_le_left _ _)

theorem mem_replaySiblings {j k : Job} : k ∈ replaySiblings j jobs ↔
      k ∈ jobs ∧ k.id ≠ j.id ∧ k.securityId = j.securityId ∧ k.Active := by
  simp [replaySiblings, Job.Active, and_assoc]

theorem requeue_alone_kept (hs : table.Sound) (hj : j ∈ table.jobs)
    (hsiblings : replaySiblings j table.jobs = []) :
    table.Kept { table with
      jobs := updateWhere (Job.ownedBy j.id token clock) (Job.leave .pending none)
        table.jobs } := by
  refine ⟨hs.of_rows (fun _ => rfl) ?_, fun n log => keeps_updateWhere (fun _ h => h)
    fun k _ _ => ⟨rfl, le_refl _, .inl (.inl rfl)⟩⟩
  have hsecurity (k : Job) :
      (if k.ownedBy j.id token clock then k.leave .pending none else k).securityId =
        k.securityId := by
    split_ifs <;> rfl
  -- a pending row after the transition is the requeued one, or was pending before
  have hpending (k : Job) (hk : k ∈ table.jobs)
      (h : (if k.ownedBy j.id token clock then k.leave .pending none else k).status = .pending) :
      k = j ∨ k.status = .pending := by
    by_cases howned : k.ownedBy j.id token clock
    · exact .inl (eq_of_key hs.ids hk hj (Job.ownedBy_iff.mp howned).1)
    · rw [if_neg howned] at h
      exact .inr h
  have hnone (k : Job) (hk : k ∈ table.jobs) (hkp : k.status = .pending)
      (hsecurity : k.securityId = j.securityId) : k = j := by
    by_contra hne
    have hid : k.id ≠ j.id := fun h => hne (eq_of_key hs.ids hk hj h)
    have hmem := mem_replaySiblings.mpr ⟨hk, hid, hsecurity, .inl hkp⟩
    rw [hsiblings] at hmem
    cases hmem
  intro k hk l hl hkp hlp heq
  rw [hsecurity, hsecurity] at heq
  rcases hpending k hk hkp with rfl | hkold
  · rcases hpending l hl hlp with rfl | hlold
    · rfl
    · exact (hnone l hl hlold heq.symm).symm
  · rcases hpending l hl hlp with rfl | hlold
    · exact hnone k hk hkold heq
    · exact hs.pending k hk l hl hkold hlold heq

/-- A claim with siblings is handed to a pending row before it is completed. -/
theorem requeue_coalesce_kept (hs : table.Sound) (hj : j ∈ table.jobs)
    (hdate : date ≤ j.earliestImpactedDate) :
    table.Kept (applyOwnedTransition j.id .complete none token clock
      (stageResetWatermarksJob j.securityId date attempts clock table).1).2 := by
  have hstaged : table.Staged j.securityId date
    (stageResetWatermarksJob j.securityId date attempts clock table).1 := stage_staged
  have hkept := hstaged.kept hs
  rcases applyOwnedTransition_cases j.id .complete none token clock
    (stageResetWatermarksJob j.securityId date attempts clock table).1 with happly | happly
  · rw [happly]
    refine ⟨hkept.sound.of_leave (by simp), fun n log => (hkept.keeps n log).trans
      (keeps_leave (fun k hk hown => ?_) hstaged.pending)⟩
    have howned := Job.ownedBy_iff.mp hown
    have hk_old := (hstaged.mem_iff k (by rw [howned.2.1]; simp)).mp hk
    obtain rfl := eq_of_key hs.ids hk_old hj howned.1
    exact ⟨howned.2.1, rfl, hdate⟩
  · rw [happly.1]
    exact hkept

theorem requeue_kept (hs : table.Sound)
    (h : requeueOwnedJob jobId token clock table = .ok (outcome, table')) :
    table.Kept table' := by
  unfold requeueOwnedJob at h
  by_cases htoken : token = ""
  · rw [if_pos htoken] at h
    cases h
  rw [if_neg htoken] at h
  cases hrow : row? Job.id table.jobs jobId with
  | none =>
    simp only [hrow] at h
    obtain ⟨-, rfl⟩ := Prod.mk.inj (Except.ok.inj h)
    exact hs.kept
  | some j =>
    have hj := row?_mem hrow
    obtain rfl := row?_key hrow
    simp only [hrow] at h
    by_cases howned : j.ownedBy j.id token clock
    · simp only [howned, Bool.not_true, Bool.false_eq_true, if_false] at h
      by_cases hsiblings : replaySiblings j table.jobs = []
      · rw [if_pos hsiblings] at h
        obtain ⟨-, rfl⟩ := Prod.mk.inj (Except.ok.inj h)
        rw [applyOwnedTransition, if_pos (any_eq_true.mpr ⟨j, hj, howned⟩)]
        exact requeue_alone_kept hs hj hsiblings
      · rw [if_neg hsiblings] at h
        obtain ⟨-, rfl⟩ := Prod.mk.inj (Except.ok.inj h)
        exact requeue_coalesce_kept hs hj foldl_min_le
    · simp only [howned] at h
      obtain ⟨-, rfl⟩ := Prod.mk.inj (Except.ok.inj h)
      exact hs.kept

def ownerEnds (jobId step : ℕ) (outcome : TransitionOutcome) : List JobEnded :=
  if outcome = .applied then [⟨jobId, .byOwner, step⟩] else []

theorem updateJobStatus_preserves (hs : table.Sound) (step : ℕ)
    (h : updateJobStatus jobId status token reason clock table = .ok (outcome, table')) :
    table'.Sound ∧ ∀ n log, n < step →
      Keeps n table.jobs log table'.jobs (log ++ ownerEnds jobId step outcome) := by
  obtain ⟨hstatus, happly⟩ := updateJobStatus_ok h
  rcases applyOwnedTransition_cases jobId status reason token clock table with happlied | hsame
  · obtain ⟨rfl, rfl⟩ := Prod.mk.inj (happly.symm.trans happlied)
    have hnot : status ≠ .pending := by
      rcases hstatus with rfl | rfl <;> simp
    refine ⟨hs.of_leave hnot, fun n log hn => keeps_updateWhere (subset_append_left _ _)
      fun j _ hj => ⟨rfl, le_refl _,
        .inr (.inl (.inl ⟨hstatus, ⟨jobId, .byOwner, step⟩, ?_, ?_, rfl, hn⟩))⟩⟩
    · exact mem_append_right _ (by simp [ownerEnds])
    · exact (Job.ownedBy_iff.mp hj).1.symm
  · rw [happly] at hsame
    obtain rfl := hsame.1
    refine ⟨hs, fun n log _ => ?_⟩
    rw [ownerEnds, if_neg hsame.2, append_nil]
    exact Keeps.refl

/-! ### Stale claims -/

theorem mem_firstCohort {limit pages : ℕ} {locked : List ℕ}
    (h : j ∈ firstCohort limit locked pages jobs) : j ∈ jobs := by
  induction pages generalizing jobs with
  | zero => cases h
  | succ pages ih =>
    unfold firstCohort at h
    cases hpage : (jobs.take limit).filter fun j => !locked.contains j.id with
    | nil =>
      rw [hpage] at h
      exact mem_of_mem_drop (ih h)
    | cons k rest =>
      rw [hpage] at h
      have hmem : j ∈ (jobs.take limit).filter fun j => !locked.contains j.id := hpage ▸ h
      exact mem_of_mem_take (mem_filter.mp hmem).1

theorem mem_staleCohort {locked : List ℕ} (h : j ∈ staleCohort locked clock jobs) : j ∈ jobs :=
  (mem_filter.mp ((perm_insertionSort _ _).mem_iff.mp (mem_firstCohort h))).1

theorem Job.stale_processing (h : j.stale clock) : j.status = .processing := by
  rw [Job.stale, Bool.and_eq_true, decide_eq_true_eq] at h
  exact h.1

/-- A recovery keeps the table, and starts work on nothing. -/
structure JobTable.Recovered (table table' : JobTable) : Prop extends table.Kept table' where
  processing : ∀ k ∈ table'.jobs, k.status = .processing → k ∈ table.jobs

theorem recoverStaleJob_recovered (hs : table.Sound) (clock : ℤ) (row : Job) :
    table.Recovered (recoverStaleJob clock table row) := by
  unfold recoverStaleJob
  cases hfind : table.jobs.find? fun j =>
      j.id = row.id && j.leaseToken = row.leaseToken && j.stale clock with
  | none => exact ⟨hs.kept, fun k hk _ => hk⟩
  | some j =>
    have hj := mem_of_find?_eq_some hfind
    have hid : j.id = row.id := by
      have hfound := List.find?_some hfind
      simp only [Bool.and_eq_true, decide_eq_true_eq] at hfound
      exact hfound.1.1
    dsimp only
    generalize hstage : (stageResetWatermarksJob j.securityId j.earliestImpactedDate
      j.attemptCount clock table).1 = staged
    have hstaged : table.Staged j.securityId j.earliestImpactedDate staged := hstage ▸ stage_staged
    have hkept := hstaged.kept hs
    have hold {k : Job} (hk : k ∈ staged.jobs) (h : k.status = .processing) : k ∈ table.jobs :=
      (hstaged.mem_iff k (by rw [h]; simp)).mp hk
    refine ⟨⟨hkept.sound.of_leave (by simp), fun n log => (hkept.keeps n log).trans
      (keeps_leave (fun k hk hstale => ?_) hstaged.pending)⟩, fun k' hk' hprocessing => ?_⟩
    · rw [Bool.and_eq_true, decide_eq_true_eq] at hstale
      have hprocessing := Job.stale_processing hstale.2
      obtain rfl := eq_of_key hs.ids (hold hk hprocessing) hj (hstale.1.trans hid.symm)
      exact ⟨hprocessing, rfl, le_refl _⟩
    · obtain ⟨k, hk, rfl⟩ := mem_updateWhere.mp hk'
      by_cases hstale : k.id = row.id && k.stale clock
      · rw [if_pos hstale] at hprocessing
        cases hprocessing
      · rw [if_neg hstale] at hprocessing ⊢
        exact hold hk hprocessing

theorem recoverStaleJobs_recovered (hs : table.Sound) (clock : ℤ) (rows : List Job) :
    table.Recovered (rows.foldl (recoverStaleJob clock) table) := by
  induction rows generalizing table with
  | nil => exact ⟨hs.kept, fun k hk _ => hk⟩
  | cons row rest ih =>
    rw [foldl_cons]
    have hrow := recoverStaleJob_recovered hs clock row
    have hrest := ih hrow.sound
    exact ⟨⟨hrest.sound, fun n log => (hrow.keeps n log).trans (hrest.keeps n log)⟩,
      fun k hk hprocessing => hrow.processing k (hrest.processing k hk hprocessing) hprocessing⟩

def overLimitEnds (maxAttempts step : ℕ) (ids : List ℕ) : List JobEnded :=
  ids.map fun i => ⟨i, .overLimit maxAttempts, step⟩

theorem resetStale_preserves (hs : table.Sound) (clock : ℤ) (maxAttempts step : ℕ)
    (locked : List ℕ) :
    (findAndResetStaleJobs maxAttempts locked clock table).Sound ∧
      ∀ n log, Keeps n table.jobs log (findAndResetStaleJobs maxAttempts locked clock table).jobs
        (log ++ overLimitEnds maxAttempts step
          (overLimitStaleJobIds maxAttempts (staleCohort locked clock table.jobs))) := by
  unfold findAndResetStaleJobs failOverLimit
  dsimp only
  have hrecovered := recoverStaleJobs_recovered hs clock
    ((staleCohort locked clock table.jobs).filter fun j => j.attemptCount < maxAttempts)
  refine ⟨hrecovered.sound.of_leave (by simp), fun n log => (hrecovered.keeps n log).trans
    (keeps_updateWhere (subset_append_left _ _) fun j hj hp => ⟨rfl, le_refl _, .inr (.inl ?_)⟩)⟩
  rw [Bool.and_eq_true, contains_iff_mem] at hp
  obtain ⟨c, hc, hid⟩ := mem_map.mp hp.1
  rw [mem_filter, decide_eq_true_eq] at hc
  -- recovery has not touched the row, so it still has the attempts it was selected for
  have hj_old := hrecovered.processing j hj (Job.stale_processing hp.2)
  have hcj := eq_of_key hs.ids (mem_staleCohort hc.1) hj_old hid
  rw [hcj] at hc
  refine .inr ⟨rfl, ⟨j.id, .overLimit maxAttempts, step⟩, ?_, maxAttempts, rfl, rfl, hc.2⟩
  exact mem_append_right _ (mem_map.mpr ⟨j.id, hp.1, rfl⟩)

end Sound

/-! ## The machine -/

/-- A staged request and the number of the step. -/
structure ReplayRequest where
  securityId : String
  date : ℤ
  step : ℕ
  deriving DecidableEq, Repr

/-- The table and the database clock, the number of steps taken, and on record the requests and the
ends of jobs. -/
structure ReplayState where
  table : JobTable
  clock : ℤ
  step : ℕ
  requests : List ReplayRequest
  log : List JobEnded
  deriving DecidableEq

/-- The calls of producers, workers and recovery, and the clock. -/
inductive ReplayStep
  | stage (securityId : String) (earliestImpactedDate : ℤ) (attemptCount : ℕ)
  | claim (batchSize : ℕ) (leaseOwner : String) (leaseDurationSeconds : ℤ) (excluded : List ℕ)
      (normalize : Bool) (leaseToken : String) (locked : List ℕ)
  | updateStatus (jobId : ℕ) (status : JobStatus) (leaseToken : String)
      (failureReason : Option String)
  | requeue (jobId : ℕ) (leaseToken : String)
  | renew (jobId : ℕ) (leaseToken : String) (leaseDurationSeconds : ℤ)
  | resetStale (maxAttempts : ℕ) (locked : List ℕ)
  | tick (elapsed : ℕ)

/-- One step. A call that raises leaves the table as it was. -/
def replayStep (s : ReplayState) (a : ReplayStep) : Option ReplayState :=
  let s' := { s with step := s.step + 1 }
  match a with
  | .stage securityId date attemptCount =>
    some { s' with
      table := (stageResetWatermarksJob securityId date attemptCount s.clock s.table).1
      requests := s.requests ++ [⟨securityId, date, s.step⟩] }
  | .claim batchSize owner duration excluded normalize token locked =>
    some { s' with
      table := committed s.table (findAndClaimJobs batchSize owner duration excluded normalize token
        locked s.clock s.table) }
  | .updateStatus jobId status token reason =>
    match updateJobStatus jobId status token reason s.clock s.table with
    | .error _ => some s'
    | .ok (outcome, table) =>
      some { s' with table := table, log := s.log ++ ownerEnds jobId s.step outcome }
  | .requeue jobId token =>
    some { s' with table := committed s.table (requeueOwnedJob jobId token s.clock s.table) }
  | .renew jobId token duration =>
    some { s' with table := committed s.table (renewLease jobId token duration s.clock s.table) }
  | .resetStale maxAttempts locked =>
    some { s' with
      table := findAndResetStaleJobs maxAttempts locked s.clock s.table
      log := s.log ++ overLimitEnds maxAttempts s.step
        (overLimitStaleJobIds maxAttempts (staleCohort locked s.clock s.table.jobs)) }
  | .tick elapsed => some { s' with clock := s.clock + elapsed }

/-- Producers, workers and recovery on a table that starts empty. -/
def replayMachine : Machine ReplayState ReplayStep where
  init s := s.table.jobs = [] ∧ s.requests = [] ∧ s.log = []
  step := replayStep

section Runs

variable {s t : ReplayState} {a : ReplayStep}

/-- Every request on record is covered. -/
structure ReplayState.Sound (s : ReplayState) : Prop where
  table : s.table.Sound
  earlier : ∀ q ∈ s.requests, q.step < s.step
  covered : ∀ q ∈ s.requests, Covers s.table.jobs s.log q.step q.securityId q.date

/-- A call that is not a request keeps the table sound and the requests covered. -/
theorem ReplayState.Sound.of_keeps (hs : s.Sound) (hstep : t.step = s.step + 1)
    (hrequests : t.requests = s.requests) (htable : t.table.Sound)
    (hkeeps : ∀ n < s.step, Keeps n s.table.jobs s.log t.table.jobs t.log) : t.Sound := by
  refine ⟨htable, fun q hq => ?_, fun q hq => ?_⟩
  · rw [hrequests] at hq
    have hearlier := hs.earlier q hq
    omega
  · rw [hrequests] at hq
    exact hkeeps q.step (hs.earlier q hq) _ _ (hs.covered q hq)

theorem ReplayState.Sound.step (hs : s.Sound) (h : replayStep s a = some t) : t.Sound := by
  -- a call that raises leaves the table as it was
  have hcall {α : Type} {result : Except Raised (α × JobTable)}
      (ht : t = { s with step := s.step + 1, table := committed s.table result })
      (hresult : ∀ a table, result = .ok (a, table) → s.table.Kept table) : t.Sound := by
    have hkept := committed_of (P := s.table.Kept) hs.table.kept hresult
    rw [ht]
    exact hs.of_keeps rfl rfl hkept.sound fun n _ => hkept.keeps n s.log
  cases a with
  | stage securityId date attemptCount =>
    obtain rfl := Option.some.inj h
    have hstaged : s.table.Staged securityId date
      (stageResetWatermarksJob securityId date attemptCount s.clock s.table).1 := stage_staged
    refine ⟨(hstaged.kept hs.table).sound, fun q hq => ?_, fun q hq => ?_⟩
    · rcases mem_append.mp hq with hq | hq
      · exact Nat.lt_succ_of_lt (hs.earlier q hq)
      · rw [mem_singleton.mp hq]
        exact Nat.lt_succ_self _
    · rcases mem_append.mp hq with hq | hq
      · exact (hstaged.kept hs.table).keeps _ _ _ _ (hs.covered q hq)
      · rw [mem_singleton.mp hq]
        obtain ⟨j, hj, hpending, hsecurity, hdate⟩ := hstaged.pending
        exact ⟨j, hj, hsecurity, hdate, .inl (.inl hpending)⟩
  | claim batchSize owner duration excluded normalize token locked =>
    exact hcall (Option.some.inj h).symm fun _ _ => claim_kept hs.table
  | updateStatus jobId status token reason =>
    cases hresult : updateJobStatus jobId status token reason s.clock s.table with
    | error e =>
      simp only [replayStep, hresult, Option.some.injEq] at h
      subst h
      exact hs.of_keeps rfl rfl hs.table fun n _ => Keeps.refl
    | ok result =>
      simp only [replayStep, hresult, Option.some.injEq] at h
      subst h
      have hupdate := updateJobStatus_preserves hs.table s.step hresult
      exact hs.of_keeps rfl rfl hupdate.1 fun n hn => hupdate.2 n s.log hn
  | requeue jobId token =>
    exact hcall (Option.some.inj h).symm fun _ _ => requeue_kept hs.table
  | renew jobId token duration =>
    exact hcall (Option.some.inj h).symm fun _ _ => renewLease_kept hs.table
  | resetStale maxAttempts locked =>
    obtain rfl := Option.some.inj h
    have hreset := resetStale_preserves hs.table s.clock maxAttempts s.step locked
    exact hs.of_keeps rfl rfl hreset.1 fun n _ => hreset.2 n s.log
  | tick elapsed =>
    obtain rfl := Option.some.inj h
    exact hs.of_keeps rfl rfl hs.table fun n _ => Keeps.refl

theorem ReplayState.Sound.of_reachable (hs : replayMachine.Reachable s) : s.Sound := by
  refine hs.invariant (fun s h => ?_) fun s a t hs h => hs.step h
  obtain ⟨hjobs, hrequests, -⟩ := h
  refine ⟨⟨?_, ?_, ?_⟩, ?_, ?_⟩ <;> simp [hjobs, hrequests]

/-- In every reachable state a security has one pending job at most, and for every request ever
staged there is a job of the security from its date or before that is pending or processing, was
ended by its live owner after the request, or was failed with its attempts used up. -/
theorem replay_obligations_kept (hs : replayMachine.Reachable s) :
    (∀ j ∈ s.table.jobs, ∀ k ∈ s.table.jobs, j.status = .pending → k.status = .pending →
      j.securityId = k.securityId → j = k) ∧
    ∀ q ∈ s.requests, Covers s.table.jobs s.log q.step q.securityId q.date := by
  have hsound := ReplayState.Sound.of_reachable hs
  exact ⟨hsound.table.pending, hsound.covered⟩

end Runs

def processedRequest : ReplayState :=
  { table :=
      { jobs :=
          [{ id := 0, securityId := "S", earliestImpactedDate := 3, createdAt := 0,
             status := .processing, attemptCount := 1, leaseOwner := some "w",
             leaseToken := some "t", leaseExpiresAt := some 60 }]
        nextId := 1 }
    clock := 0
    step := 3
    requests := [⟨"S", 5, 0⟩, ⟨"S", 3, 1⟩]
    log := [] }

theorem processedRequest_reachable : replayMachine.Reachable processedRequest := by
  have hinit : replayMachine.init ⟨⟨[], 0⟩, 0, 0, [], []⟩ := ⟨rfl, rfl, rfl⟩
  have hrun : replayMachine.run ⟨⟨[], 0⟩, 0, 0, [], []⟩
      [.stage "S" 5 0, .stage "S" 3 0, .claim 1 "w" 60 [] true "t" []] = some processedRequest := by
    decide +kernel
  exact (Machine.Reachable.init hinit).run hrun

/-- Both requests are covered by the one claim. -/
theorem replay_obligations_kept_processed :
    Covers processedRequest.table.jobs [] 0 "S" 5 ∧
      Covers processedRequest.table.jobs [] 1 "S" 3 := by
  have hkept := (replay_obligations_kept processedRequest_reachable).2
  exact ⟨hkept ⟨"S", 5, 0⟩ (by decide), hkept ⟨"S", 3, 1⟩ (by decide)⟩

/-- **Normalization is redundant.** In every reachable state a claim takes the same jobs and leaves
the same table whether or not it first merges the pending duplicates of a security. -/
theorem claim_normalization_redundant {s : ReplayState} (hs : replayMachine.Reachable s)
    (batchSize : ℕ) (owner : String) (duration : ℤ) (excluded : List ℕ) (token : String)
    (locked : List ℕ) (clock : ℤ) :
    findAndClaimJobs batchSize owner duration excluded true token locked clock s.table =
      findAndClaimJobs batchSize owner duration excluded false token locked clock s.table := by
  unfold findAndClaimJobs
  simp only [normalizePendingDuplicates_eq (ReplayState.Sound.of_reachable hs).table, ite_self]

theorem claim_normalization_redundant_processed :
    findAndClaimJobs 1 "w" 60 [] true "u" [] 90 processedRequest.table =
      findAndClaimJobs 1 "w" 60 [] false "u" [] 90 processedRequest.table :=
  claim_normalization_redundant processedRequest_reachable 1 "w" 60 [] "u" [] 90

end LotusCore.Reprocessing
