import LotusCore.Exec.Raising
import LotusCore.Valuation.Backfill

/-!
# Polls after a reset

A reset moves the watermark of a valued position back, and the polls that follow bring it to the
latest business date again. Completed jobs are not re-armed and the old snapshots count as
contiguous, so no poll values a date again.

* `ValuationTables.Valued`: the jobs of a position are complete and its snapshots match.
* `poll_valued`, `polls_valued`: this stays, and no poll claims a job of the position.
* `poll_current`: one poll brings the watermark to the latest business date.
* **`reset_revalues_iff`**: a reset has its dates valued again exactly if there are none.
-/

namespace LotusCore.Valuation

open LotusCore Table Exec List

/-! ## Scopes -/

theorem jobScope_inj {k k' : PositionKey} {date date' epoch epoch' : ℤ} :
    jobScope k date epoch = jobScope k' date' epoch' ↔ k = k' ∧ date = date' ∧ epoch = epoch' := by
  simp only [jobScope, EmbeddingLike.apply_eq_iff_eq, Prod.ext_iff, and_assoc]

/-- The job is one of a position and epoch up to a date. -/
def ValuationJob.UpTo (job : ValuationJob) (k : PositionKey) (epoch latest : ℤ) : Prop :=
  job.key = k ∧ job.epoch = epoch ∧ job.valuationDate ≤ latest

theorem ValuationJob.upTo_congr {job job' : ValuationJob} (h : job.scope = job'.scope)
    {k : PositionKey} {epoch latest : ℤ} :
    job.UpTo k epoch latest ↔ job'.UpTo k epoch latest := by
  obtain ⟨hkey, hdate, hepoch⟩ := jobScope_inj.mp h
  rw [ValuationJob.UpTo, ValuationJob.UpTo, hkey, hdate, hepoch]

/-- The position is to be valued on the date. -/
def ValuationTables.DueOn (db : ValuationTables) (k : PositionKey) (epoch date : ℤ) : Prop :=
  date ∈ db.businessDates ∧ ∃ first, db.firstOpenDate k epoch = some first ∧ first ≤ date

/-! ## Completed jobs stay -/

/-- The jobs up to a date are complete, and each of the dates has one. -/
structure JobsDone (k : PositionKey) (epoch latest : ℤ) (dates : ℤ → Prop)
    (jobs : List ValuationJob) : Prop where
  complete : ∀ job ∈ jobs, job.UpTo k epoch latest → job.status = .complete
  exist : ∀ date, dates date → jobScope k date epoch ∈ jobs.map (·.scope)

variable {request : ValuationJob}

section Jobs

variable {k : PositionKey} {epoch latest : ℤ} {dates : ℤ → Prop} {jobs : List ValuationJob}

/-- A request for a job of the position is for one of the dates. -/
def Requested (k : PositionKey) (epoch latest : ℤ) (dates : ℤ → Prop) (request : ValuationJob) :
    Prop :=
  request.UpTo k epoch latest → dates request.valuationDate

theorem JobsDone.updateWhere {p : ValuationJob → Bool} {f : ValuationJob → ValuationJob}
    (h : JobsDone k epoch latest dates jobs) (hp : ∀ job, job.status = .complete → p job = false)
    (hf : ∀ job, (f job).scope = job.scope) :
    JobsDone k epoch latest dates (updateWhere p f jobs) where
  complete := by
    intro job hjob hup
    obtain ⟨old, hold, rfl⟩ := mem_updateWhere.mp hjob
    by_cases hpo : p old
    · rw [if_pos hpo] at hup
      have hcomplete := h.complete old hold ((ValuationJob.upTo_congr (hf old)).mp hup)
      rw [hp old hcomplete] at hpo
      exact absurd hpo Bool.false_ne_true
    · rw [if_neg hpo] at hup ⊢
      exact h.complete old hold hup
  exist := by
    intro date hdate
    rw [updateWhere_map fun job _ _ => hf job]
    exact h.exist date hdate

theorem JobsDone.upsertJob (h : JobsDone k epoch latest dates jobs)
    (hr : Requested k epoch latest dates request) :
    JobsDone k epoch latest dates (upsertJob false jobs request) := by
  unfold Valuation.upsertJob
  by_cases hany : jobs.any fun job => job.scope = request.scope
  · rw [if_pos hany]
    exact h.updateWhere (fun job hjob => by simp [conflictUpdates, hjob]) fun job => rfl
  · rw [if_neg hany]
    refine ⟨fun job hjob hup => ?_, fun date hdate => ?_⟩
    · cases mem_append.mp hjob with
      | inl hold => exact h.complete job hold hup
      | inr hnew =>
        -- a new job of the position would be for a date that has one
        obtain rfl := mem_singleton.mp hnew
        have hexist := h.exist _ (hr hup)
        obtain ⟨old, hold, hscope⟩ := mem_map.mp hexist
        refine absurd (any_eq_true.mpr ⟨old, hold, decide_eq_true ?_⟩) hany
        rw [hscope]
        exact jobScope_inj.mpr ⟨hup.1.symm, rfl, hup.2.1.symm⟩
    · rw [map_append]
      exact mem_append_left _ (h.exist date hdate)

variable {requests : List ValuationJob}

theorem mem_normalizeJobs (h : request ∈ normalizeJobs requests) : request ∈ requests := by
  rw [normalizeJobs, mem_insertionSort] at h
  refine List.foldlRecOn requests _ (motive := fun kept => ∀ r ∈ kept, r ∈ requests) (by simp)
    (fun kept hkept r hr q hq => ?_) request h
  cases mem_append.mp hq with
  | inl hq => exact hkept q (mem_of_mem_filter hq)
  | inr hq => exact mem_singleton.mp hq ▸ hr

theorem JobsDone.upsertJobs (h : JobsDone k epoch latest dates jobs)
    (hr : ∀ request ∈ requests, Requested k epoch latest dates request) :
    JobsDone k epoch latest dates (upsertJobs false requests jobs) := by
  unfold Valuation.upsertJobs
  dsimp only
  split
  · exact h
  · have hupserted : JobsDone k epoch latest dates
        (((normalizeJobs requests).filter fun request => !isStaleJob jobs request).foldl
          (Valuation.upsertJob false) jobs) :=
      List.foldlRecOn _ _ h fun current hcurrent request hrequest =>
        hcurrent.upsertJob (hr request (mem_normalizeJobs (mem_of_mem_filter hrequest)))
    unfold skipSupersededPendingJobs
    exact hupserted.updateWhere (fun job hjob => by simp [hjob]) fun job => rfl

end Jobs

/-! ## Planning -/

variable {states : List PositionState}

section Planning

variable {db : ValuationTables} {k : PositionKey} {epoch latest : ℤ}
  {correlationId : PositionState → ℤ → Option String}

theorem mem_valuationDatesBetween {after through date : ℤ} (hdates : db.businessDates ≠ [])
    (h : date ∈ db.valuationDatesBetween after through) :
    date ∈ db.businessDates ∧ after < date ∧ date ≤ through := by
  rw [ValuationTables.valuationDatesBetween, if_neg hdates, mem_insertionSort,
    mem_filter, mem_dedup] at h
  exact ⟨h.1, of_decide_eq_true h.2⟩

theorem plannedRequests_requested (hdates : db.businessDates ≠ [])
    (h : request ∈ plannedRequests correlationId db states latest) :
    Requested k epoch latest (db.DueOn k epoch) request := by
  unfold plannedRequests at h
  split at h
  · cases h
  obtain ⟨state, -, h⟩ := mem_flatMap.mp h
  cases hfirst : db.firstOpenDate state.key state.epoch with
  | none => simp [hfirst] at h
  | some first =>
    simp only [hfirst, buildBackfillJobRequests] at h
    obtain ⟨date, hdate, rfl⟩ := mem_map.mp h
    rw [mem_filter] at hdate
    rintro ⟨hkey, hepoch, -⟩
    have hafter : max state.watermarkDate (first - 1) < date := of_decide_eq_true hdate.2
    refine ⟨(mem_valuationDatesBetween hdates hdate.1).1, first, ?_, ?_⟩
    · rw [← hkey, ← hepoch]
      exact hfirst
    · change first ≤ date
      omega

theorem JobsDone.plannedJobs {chunkSize : ℕ}
    (hdates : db.businessDates ≠ []) (h : JobsDone k epoch latest (db.DueOn k epoch) db.jobs) :
    JobsDone k epoch latest (db.DueOn k epoch)
      (plannedJobs correlationId db states latest chunkSize) := by
  unfold Valuation.plannedJobs
  refine List.foldlRecOn _ _ h fun current hcurrent chunk hchunk => ?_
  exact hcurrent.upsertJobs fun request hrequest =>
    plannedRequests_requested hdates (mem_of_mem_toChunks hchunk hrequest)

end Planning

/-! ## What a poll keeps -/

/-- The position is valued through the latest business date, and none of its jobs was claimed. -/
structure ValuationTables.Valued (db : ValuationTables) (k : PositionKey) (epoch latest : ℤ) :
    Prop where
  latest_eq : db.businessDates.max? = some latest
  jobs : JobsDone k epoch latest (db.DueOn k epoch) db.jobs
  matched : ∀ date, db.DueOn k epoch date → date ∈ (db.matchingSnapshots k epoch).map (·.date)
  unclaimed : ∀ date ≤ latest, jobScope k date epoch ∉ db.claims

variable {maxInFlight : Option ℕ} {now : ℤ} {limit : ℕ} {date : ℤ}

section Steps

variable {κ : Type} [LinearOrder κ] {collate : String → κ}
  {correlationId : PositionState → ℤ → Option String}
  {db : ValuationTables} {k : PositionKey} {epoch latest : ℤ}

namespace ValuationTables.Valued

section Valued

variable (h : db.Valued k epoch latest)

include h

theorem latestBusinessDate : db.latestBusinessDate = some latest := by
  rw [ValuationTables.latestBusinessDate, h.latest_eq]

theorem businessDates_ne_nil : db.businessDates ≠ [] := by
  intro hnil
  have hmax := h.latest_eq
  rw [hnil] at hmax
  cases hmax

theorem le_latest (hdate : date ∈ db.businessDates) :
    date ≤ latest := (List.max?_eq_some_iff.mp h.latest_eq).2 date hdate

theorem withStates (states : List PositionState) :
    { db with states := states }.Valued k epoch latest :=
  ⟨h.latest_eq, h.jobs, h.matched, h.unclaimed⟩

theorem createBackfillJobs {limit chunkSize : ℕ} {planned : ValuationTables}
    (hok : createBackfillJobs collate correlationId limit chunkSize now db = .ok planned) :
    planned.Valued k epoch latest := by
  simp only [Valuation.createBackfillJobs, h.latestBusinessDate] at hok
  obtain ⟨updated, -, rfl⟩ := except_map_eq_ok.mp hok
  exact ⟨h.latest_eq, h.jobs.plannedJobs h.businessDates_ne_nil, h.matched, h.unclaimed⟩

theorem claimEligibleJobs :
    (claimEligibleJobs collate limit maxInFlight db).Valued k epoch latest where
  latest_eq := h.latest_eq
  jobs := h.jobs.updateWhere (fun job hjob => by simp [hjob]) fun job => rfl
  matched := h.matched
  unclaimed := by
    intro date hdate hclaim
    cases mem_append.mp hclaim with
    | inl hold => exact h.unclaimed date hdate hold
    | inr hnew =>
      obtain ⟨job, hjob, hscope⟩ := mem_map.mp hnew
      have heligible := mem_of_mem_take hjob
      rw [mem_insertionSort, mem_filter] at heligible
      obtain ⟨hkey, hjobDate, hepoch⟩ := jobScope_inj.mp hscope
      have hcomplete := h.jobs.complete job heligible.1 ⟨hkey, hepoch, hjobDate ▸ hdate⟩
      simp [ValuationTables.eligible, hcomplete] at heligible

/-- The completion of another job leaves the snapshots of the position. -/
theorem completeJob {job : ValuationJob} (hjob : ¬ job.UpTo k epoch latest)
    : (completeJob db job).Valued k epoch latest := by
  unfold Valuation.completeJob
  cases db.latestHistory job.key job.epoch job.valuationDate with
  | none => exact h
  | some row =>
    refine ⟨h.latest_eq, h.jobs.updateWhere (fun job hjob => by simp [hjob]) fun job => rfl,
      fun date hdate => ?_, h.unclaimed⟩
    obtain ⟨snapshot, hsnapshot, rfl⟩ := mem_map.mp (h.matched date hdate)
    obtain ⟨hmem, hmatch⟩ := mem_filter.mp hsnapshot
    refine mem_map_of_mem (mem_filter.mpr ⟨mem_append_left _
      (mem_filter.mpr ⟨hmem, decide_eq_true fun hscope => hjob ?_⟩), hmatch⟩)
    obtain ⟨hkey, hjobDate, hepoch⟩ := jobScope_inj.mp hscope
    obtain ⟨hk, he, -⟩ := of_decide_eq_true hmatch
    exact ⟨hkey.symm.trans hk, hepoch.symm.trans he, hjobDate ▸ h.le_latest hdate.1⟩

theorem completeJobs : (completeJobs db).Valued k epoch latest := by
  refine List.foldlRecOn (motive := (ValuationTables.Valued · k epoch latest)) _ _ h
    fun current hcurrent job hjob => hcurrent.completeJob fun hup => ?_
  obtain ⟨hmem, hprocessing⟩ := mem_filter.mp hjob
  simp [h.jobs.complete job hmem hup] at hprocessing

theorem advanceWatermarks {advanced : ValuationTables}
    (hok : advanceWatermarks collate limit now db = .ok advanced) :
    advanced.Valued k epoch latest := by
  simp only [Valuation.advanceWatermarks, h.latestBusinessDate, except_bind_eq_ok] at hok
  obtain ⟨terminal, -, rows, -, hadvanced⟩ := hok
  rw [← Except.ok.inj hadvanced]
  exact h.withStates _

end Valued

end ValuationTables.Valued

theorem claims_valued {limits : List ℕ} (h : db.Valued k epoch latest) :
    (limits.foldl (fun db limit => claimEligibleJobs collate limit maxInFlight db) db).Valued k
      epoch latest :=
  List.foldlRecOn (motive := (ValuationTables.Valued · k epoch latest)) _ _ h
    fun _ hcurrent _ _ => hcurrent.claimEligibleJobs

theorem poll_valued (p : Poll) (h : db.Valued k epoch latest) :
    (poll collate correlationId p db).Valued k epoch latest := by
  unfold poll
  split
  · exact h
  · next planned hplanned =>
    have hclaimed : (p.claimLimits.foldl (fun db limit => claimEligibleJobs collate limit
        p.maxInFlight db) planned).Valued k epoch latest :=
      claims_valued (h.createBackfillJobs hplanned)
    dsimp only
    split
    · exact hclaimed.completeJobs
    · next advanced hadvanced => exact hclaimed.completeJobs.advanceWatermarks hadvanced

theorem polls_valued (ps : List Poll) (h : db.Valued k epoch latest) :
    (polls collate correlationId ps db).Valued k epoch latest :=
  List.foldlRecOn (motive := (ValuationTables.Valued · k epoch latest)) ps _ h
    fun _ hcurrent p _ => poll_valued p hcurrent

end Steps

/-! ## One poll is enough -/

/-- The position is current at the date. -/
def ValuationTables.CurrentAt (db : ValuationTables) (k : PositionKey) (date : ℤ) : Prop :=
  ∃ row, positionState? db.states k = some row ∧ row.watermarkDate = date ∧ row.status = .current

/-- The row of the position lags behind the date. -/
structure ValuationTables.Lags (db : ValuationTables) (k : PositionKey) (epoch date : ℤ)
    (row : PositionState) : Prop where
  keys : (db.states.map PositionState.key).Nodup
  row_eq : positionState? db.states k = some row
  epoch_eq : row.epoch = epoch
  behind : row.watermarkDate < date
  schedulable : row.status.schedulable

section Current

variable {κ : Type} [LinearOrder κ] {collate : String → κ}
  {correlationId : PositionState → ℤ → Option String}
  {db : ValuationTables} {k : PositionKey} {epoch latest : ℤ} {row : PositionState}
  {updates : List PositionStateUpdate} {rows : List PositionState}

theorem positionState?_updatedBy (h : positionState? rows k = some row) :
    positionState? (rows.map (·.updatedBy updates now)) k = some (row.updatedBy updates now) := by
  rw [positionState?] at h ⊢
  rw [row?_map fun q _ => updatedBy_key _ _ q, h, Option.map_some]

theorem updatedBy_keys :
    (rows.map (·.updatedBy updates now)).map PositionState.key = rows.map PositionState.key := by
  rw [map_map]
  exact map_congr_left fun q _ => updatedBy_key _ _ q

theorem buildNoHistoryNormalizationUpdates_eq (h : ∀ state ∈ states, state.watermarkDate < latest) :
    buildNoHistoryNormalizationUpdates states latest =
      (Advance.mk (.lagging fun _ => some latest) latest states []).updates := by
  rw [Advance.updates_eq, buildNoHistoryNormalizationUpdates, ← filterMap_eq_map']
  refine filterMap_congr fun state hstate => ?_
  simp [Advance.written, h state hstate]

variable {state : PositionState}

theorem mem_statesNeedingBackfill (h : state ∈ statesNeedingBackfill collate db latest limit) :
    state.watermarkDate < latest := by
  have hmem := mem_of_mem_take h
  rw [mem_insertionSort, mem_filter] at hmem
  simp only [Bool.and_eq_true, decide_eq_true_eq] at hmem
  exact hmem.2.1.1

theorem createBackfillJobs_lags {limit chunkSize : ℕ}
    (hvalued : db.Valued k epoch latest) (hdue : db.DueOn k epoch latest)
    (hlags : db.Lags k epoch latest row) :
    ∃ planned, createBackfillJobs collate correlationId limit chunkSize now db = .ok planned ∧
      planned.Lags k epoch latest row ∧ planned.states.length = db.states.length ∧
      planned.DueOn k epoch latest := by
  set states := statesNeedingBackfill collate db latest limit with hstates
  set a := Advance.mk (.lagging fun _ => some latest) latest (statesWithoutHistory db states) []
    with ha
  have hnodup : (a.states.map PositionState.key).Nodup :=
    (filter_sublist.map _).nodup (loadStates_keys_nodup collate hlags.keys _ _)
  have hupdates : buildNoHistoryNormalizationUpdates (statesWithoutHistory db states) latest =
      a.updates := buildNoHistoryNormalizationUpdates_eq fun state hstate =>
    mem_statesNeedingBackfill (mem_of_mem_filter hstate)
  have hrow : row.updatedBy a.updates now = row := by
    refine updatedBy_of_leaves fun state hstate hkey hepoch => ?_
    obtain ⟨-, first, hfirst, -⟩ := hdue
    have hnone := (mem_filter.mp hstate).2
    rw [hkey, hepoch, row?_key hlags.row_eq, hlags.epoch_eq, hfirst] at hnone
    exact absurd hnone (by simp)
  refine ⟨{ db with
    states := db.states.map (·.updatedBy a.updates now)
    jobs := plannedJobs correlationId db states latest chunkSize }, ?_,
    ⟨?_, ?_, hlags.epoch_eq, hlags.behind, hlags.schedulable⟩, ?_, hdue⟩
  · simp only [createBackfillJobs, hvalued.latestBusinessDate, ← hstates, hupdates,
      bulkUpdateStates_eq (a.updates_identities_nodup hnodup)]
    rfl
  · rw [updatedBy_keys]
    exact hlags.keys
  · rw [positionState?_updatedBy hlags.row_eq, hrow]
  · rw [length_map]

theorem mem_expectedDates (hvalued : db.Valued state.key state.epoch latest)
    (hdue : db.DueOn state.key state.epoch latest) (h : date ∈ db.expectedDates state latest) :
    db.DueOn state.key state.epoch date := by
  obtain ⟨-, first, hfirst, -⟩ := hdue
  simp only [ValuationTables.expectedDates, hfirst] at h
  obtain ⟨hdate, hafter, -⟩ := mem_valuationDatesBetween hvalued.businessDates_ne_nil h
  rw [Int.sub_one_lt_iff, max_le_iff] at hafter
  exact ⟨hdate, first, hfirst, hafter.2⟩

theorem contiguousSnapshotDate_valued (hvalued : db.Valued state.key state.epoch latest)
    (hdue : db.DueOn state.key state.epoch latest) :
    db.contiguousSnapshotDate latest state = some latest := by
  have hgap : db.firstGap state latest = none := by
    rw [ValuationTables.firstGap, List.min?_eq_none_iff, filter_eq_nil_iff]
    intro date hdate
    simpa using hvalued.matched date (mem_expectedDates hvalued hdue hdate)
  have hlast := hvalued.matched latest hdue
  unfold ValuationTables.contiguousSnapshotDate
  cases hmax : ((db.matchingSnapshots state.key state.epoch).map (·.date)).max? with
  | none =>
    rw [List.max?_eq_none_iff] at hmax
    rw [hmax] at hlast
    cases hlast
  | some last =>
    have hle := (List.max?_eq_some_iff.mp hmax).2 latest hlast
    simp only [hgap]
    rw [min_eq_right hle]

/-- What claims and completions leave alone. -/
def ValuationTables.positions (db : ValuationTables) :
    List PositionState × List HistoryRow × List ℤ :=
  (db.states, db.history, db.businessDates)

theorem dueOn_congr {db' : ValuationTables} (h : db.positions = db'.positions) :
    db.DueOn k epoch date ↔ db'.DueOn k epoch date := by
  simp only [ValuationTables.positions, Prod.mk.injEq] at h
  simp only [ValuationTables.DueOn, ValuationTables.firstOpenDate, ValuationTables.historyOf, h.2.1,
    h.2.2]

theorem foldl_claimEligibleJobs_positions {limits : List ℕ} :
    (limits.foldl (fun db limit => claimEligibleJobs collate limit maxInFlight db) db).positions =
      db.positions :=
  List.foldlRecOn (motive := fun current => ValuationTables.positions current = db.positions) _ _
    rfl fun _ hcurrent _ _ => hcurrent

theorem completeJobs_positions : (completeJobs db).positions = db.positions := by
  refine List.foldlRecOn
    (motive := fun current => ValuationTables.positions current = db.positions) _ _ rfl
    fun current hcurrent job _ => ?_
  rw [completeJob]
  split
  · exact hcurrent
  · exact hcurrent

/-- The first statement of an advance: terminal rows become current. -/
def ValuationTables.terminalAdvance (db : ValuationTables) (collate : String → κ) (limit : ℕ)
    (latest : ℤ) : Advance :=
  ⟨.terminalReprocessing, latest, terminalReprocessingStates collate latest limit db.states, []⟩

/-- The second statement of an advance: lagging rows move to their contiguous dates. -/
def ValuationTables.laggingAdvance (db : ValuationTables) (collate : String → κ) (limit : ℕ)
    (latest : ℤ) : Advance :=
  ⟨.lagging fun k => ((laggingStates collate latest limit db.states).find? fun state =>
      state.key = k).bind (db.contiguousSnapshotDate latest),
    latest, laggingStates collate latest limit db.states, []⟩

/-- An advance writes row by row. -/
theorem advanceWatermarks_eq (hkeys : (db.states.map PositionState.key).Nodup)
    (hlatest : db.latestBusinessDate = some latest) :
    advanceWatermarks collate limit now db = .ok { db with
      states := (db.states.map
        (·.updatedBy (db.terminalAdvance collate limit latest).updates now)).map
          (·.updatedBy (db.laggingAdvance collate limit latest).updates now) } := by
  have hterminal := bulkUpdateStates_eq ((db.terminalAdvance collate limit
    latest).updates_identities_nodup (loadStates_keys_nodup collate hkeys _ _)) now db.states
  have hlagging := bulkUpdateStates_eq ((db.laggingAdvance collate limit
    latest).updates_identities_nodup (loadStates_keys_nodup collate hkeys _ _)) now
    (db.states.map (·.updatedBy (db.terminalAdvance collate limit latest).updates now))
  simp only [advanceWatermarks, hlatest]
  change (bulkUpdateStates (db.terminalAdvance collate limit latest).updates now db.states >>=
    fun result => bulkUpdateStates (db.laggingAdvance collate limit latest).updates now result.1 >>=
      fun result => .ok { db with states := result.1 }) = _
  rw [hterminal]
  change (bulkUpdateStates _ now (db.states.map _) >>= _) = _
  rw [hlagging]
  rfl

variable (now limit collate latest) in
theorem updatedBy_terminal (hkeys : (db.states.map PositionState.key).Nodup)
    (hrow : row ∈ db.states) :
    (row.updatedBy (db.terminalAdvance collate limit latest).updates now).watermarkDate =
        row.watermarkDate ∧
    (row.watermarkDate < latest →
      row.updatedBy (db.terminalAdvance collate limit latest).updates now = row) := by
  by_cases hmem : row ∈ (db.terminalAdvance collate limit latest).states
  · have hloaded := mem_of_mem_take hmem
    rw [mem_insertionSort, mem_filter, Bool.and_eq_true, decide_eq_true_eq,
      decide_eq_true_eq] at hloaded
    rw [updatedBy_of_state (loadStates_keys_nodup collate hkeys _ _) hmem rfl rfl rfl]
    exact ⟨rfl, fun hlt => absurd hloaded.2.2 (by omega)⟩
  · have hstays : row.updatedBy (db.terminalAdvance collate limit latest).updates now = row := by
      refine updatedBy_of_leaves fun state hstate hkey _ => absurd hstate ?_
      have hstate' := (loadStates_subperm collate _ _ _).subset hstate
      rw [eq_of_key hkeys hstate' hrow hkey]
      exact hmem
    rw [hstays]
    exact ⟨rfl, fun _ => rfl⟩

/-- What the second statement writes to a row it has loaded. -/
theorem laggingAdvance_written (hkeys : (db.states.map PositionState.key).Nodup)
    (hrow : row ∈ laggingStates collate latest limit db.states) :
    (db.laggingAdvance collate limit latest).written row =
      (db.contiguousSnapshotDate latest row).bind fun date =>
        if row.watermarkDate < date then
          some (date, if date = latest then .current else row.status)
        else none := by
  have hfind : ((laggingStates collate latest limit db.states).find? fun state =>
      state.key = row.key) = some row :=
    row?_eq_some (loadStates_keys_nodup collate hkeys _ _) hrow
  simp only [Advance.written, ValuationTables.laggingAdvance, hfind, Option.bind_some]
  rfl

theorem advanceWatermarks_current (hvalued : db.Valued k epoch latest)
    (hdue : db.DueOn k epoch latest) (hlags : db.Lags k epoch latest row)
    (hlimit : db.states.length ≤ limit) :
    ∃ advanced, advanceWatermarks collate limit now db = .ok advanced ∧
      advanced.CurrentAt k latest := by
  obtain rfl : row.key = k := row?_key hlags.row_eq
  obtain rfl : row.epoch = epoch := hlags.epoch_eq
  have hmem : row ∈ laggingStates collate latest limit db.states := by
    refine (mem_loadStates collate hlimit).mpr ⟨row?_mem hlags.row_eq, ?_⟩
    simp [hlags.behind, hlags.schedulable]
  -- the row is not terminal: it lags
  have hstays := (updatedBy_terminal now limit collate latest hlags.keys (row?_mem hlags.row_eq)).2
    hlags.behind
  have hwritten : (db.laggingAdvance collate limit latest).written row =
      some (latest, .current) := by
    rw [laggingAdvance_written hlags.keys hmem, contiguousSnapshotDate_valued hvalued hdue]
    simp [hlags.behind]
  refine ⟨_, advanceWatermarks_eq hlags.keys hvalued.latestBusinessDate,
    row.updatedBy (db.laggingAdvance collate limit latest).updates now,
    positionState?_updatedBy ?_, ?_⟩
  · rw [positionState?_updatedBy hlags.row_eq, hstays]
  · rw [updatedBy_of_state (loadStates_keys_nodup collate hlags.keys _ _) hmem rfl rfl hwritten]
    exact ⟨rfl, rfl⟩

theorem poll_current {p : Poll} (hvalued : db.Valued k epoch latest)
    (hdue : db.DueOn k epoch latest) (hlags : db.Lags k epoch latest row)
    (hbatch : db.states.length ≤ p.batchSize) :
    (poll collate correlationId p db).CurrentAt k latest := by
  obtain ⟨planned, hplanned, hplannedLags, hlength, hplannedDue⟩ :
      ∃ planned, createBackfillJobs collate correlationId p.batchSize p.chunkSize p.now db =
        .ok planned ∧ planned.Lags k epoch latest row ∧
        planned.states.length = db.states.length ∧ planned.DueOn k epoch latest :=
    createBackfillJobs_lags hvalued hdue hlags
  set claimed := p.claimLimits.foldl (fun db limit => claimEligibleJobs collate limit
    p.maxInFlight db) planned with hclaimed
  have hpositions : (completeJobs claimed).positions = planned.positions := by
    rw [completeJobs_positions, hclaimed, foldl_claimEligibleJobs_positions]
  have hstates : (completeJobs claimed).states = planned.states := congrArg Prod.fst hpositions
  have hcompleted : (completeJobs claimed).Valued k epoch latest :=
    (claims_valued (hvalued.createBackfillJobs hplanned)).completeJobs
  have hcompletedLags : (completeJobs claimed).Lags k epoch latest row :=
    ⟨hstates ▸ hplannedLags.keys, hstates ▸ hplannedLags.row_eq, hplannedLags.epoch_eq,
      hplannedLags.behind, hplannedLags.schedulable⟩
  obtain ⟨advanced, hadvanced, hcurrent⟩ :
      ∃ advanced, advanceWatermarks collate p.batchSize p.now (completeJobs claimed) =
        .ok advanced ∧ advanced.CurrentAt k latest :=
    advanceWatermarks_current hcompleted ((dueOn_congr hpositions).mpr hplannedDue) hcompletedLags
      (by rw [hstates, hlength]; exact hbatch)
  simp only [poll, hplanned, ← hclaimed, hadvanced]
  exact hcurrent

end Current

/-! ## Resets -/

section Reset

variable {κ : Type} [LinearOrder κ] {collate : String → κ}
  {correlationId : PositionState → ℤ → Option String}
  {db : ValuationTables} {k : PositionKey} {epoch latest : ℤ}

/-- The position is valued through the latest business date, its row says so, and no claim is
recorded yet. -/
structure ValuationTables.ValuedThrough (db : ValuationTables) (k : PositionKey)
    (epoch latest : ℤ) : Prop where
  keys : (db.states.map PositionState.key).Nodup
  row : ∃ row, positionState? db.states k = some row ∧ row.epoch = epoch ∧
    row.watermarkDate = latest ∧ row.status = .current
  latest_eq : db.latestBusinessDate = some latest
  jobs : JobsDone k epoch latest (db.DueOn k epoch) db.jobs
  matched : ∀ date, db.DueOn k epoch date → date ∈ (db.matchingSnapshots k epoch).map (·.date)
  claims_eq : db.claims = []

theorem ValuationTables.ValuedThrough.valued (h : db.ValuedThrough k epoch latest)
    (hdate : date ∈ db.businessDates) : db.Valued k epoch latest where
  latest_eq := by
    have hlatest := h.latest_eq
    rw [ValuationTables.latestBusinessDate] at hlatest
    cases hmax : db.businessDates.max? with
    | none =>
      rw [List.max?_eq_none_iff.mp hmax] at hdate
      cases hdate
    | some last => rwa [hmax] at hlatest
  jobs := h.jobs
  matched := h.matched
  unclaimed := by simp [h.claims_eq]

theorem reset_current_or_lags {earliest now : ℤ} (h : db.ValuedThrough k epoch latest)
    (hearliest : earliest ≤ latest) :
    (resetImpactedWatermarks k.2 earliest now db).CurrentAt k latest ∨
      ∃ row, (resetImpactedWatermarks k.2 earliest now db).Lags k epoch latest row := by
  obtain ⟨row, hrow, hepoch, hwatermark, hstatus⟩ := h.row
  set keys := (portfoliosHoldingOnDate db k.2 earliest ++
    portfoliosFirstHoldingAfterDate db k.2 earliest).map (·, k.2) with hkeys
  have hafter : positionState? (resetImpactedWatermarks k.2 earliest now db).states k =
      (positionState? db.states k).map _ := row?_updateWhere fun q => rfl
  rw [hrow, Option.map_some] at hafter
  by_cases hfits : watermarkUpdateFits keys (earliest - 1) false none row
  · rw [if_pos hfits] at hafter
    refine .inr ⟨_, ?_, hafter, hepoch, ?_, rfl⟩
    · exact (updateWatermarksIfOlder_keys _ _ _ _ _ _).symm ▸ h.keys
    · change earliest - 1 < latest
      omega
  · rw [if_neg hfits] at hafter
    exact .inl ⟨row, hafter, hwatermark, hstatus⟩

variable (collate correlationId) in
/-- Some polls bring a position that is valued back to the latest business date after a reset. -/
theorem exists_polls_current {earliest : ℤ} (now : ℤ) (h : db.ValuedThrough k epoch latest)
    (hearliest : earliest ≤ latest) (hdue : db.DueOn k epoch latest) :
    ∃ ps, (polls collate correlationId ps
      (resetImpactedWatermarks k.2 earliest now db)).CurrentAt k latest := by
  cases reset_current_or_lags h hearliest with
  | inl hcurrent => exact ⟨[], hcurrent⟩
  | inr hlags =>
    obtain ⟨row, hlags⟩ := hlags
    refine ⟨[⟨(resetImpactedWatermarks k.2 earliest now db).states.length, 1, [1], none, now⟩], ?_⟩
    exact poll_current ((h.valued hdue.1).withStates _) hdue hlags le_rfl

/-- A reset of a valued position has every due date from its earliest date on valued again, in every
run of polls that ends current at the latest business date, exactly if the position has no history
up to that date, so that none is due: completed jobs are not re-armed, and the snapshots from before
the reset count as contiguous. -/
theorem reset_revalues_iff {earliest now : ℤ} (h : db.ValuedThrough k epoch latest)
    (hdate : earliest ∈ db.businessDates) :
    (∀ ps, (polls collate correlationId ps
        (resetImpactedWatermarks k.2 earliest now db)).CurrentAt k latest →
      ∀ date, db.DueOn k epoch date → earliest ≤ date → date ≤ latest →
        jobScope k date epoch ∈ (polls collate correlationId ps
          (resetImpactedWatermarks k.2 earliest now db)).claims) ↔
    ∀ row ∈ db.history, row.key = k → row.epoch = epoch → latest < row.positionDate := by
  have hvalued := h.valued hdate
  constructor
  · intro hrevalued row hrow hkey hepoch
    by_contra hle
    have hdue : db.DueOn k epoch latest := by
      have hmem : row.positionDate ∈ (db.historyOf k epoch).map (·.positionDate) :=
        mem_map_of_mem (mem_filter.mpr ⟨hrow, decide_eq_true ⟨hkey, hepoch⟩⟩)
      obtain ⟨first, hfirst⟩ := Option.isSome_iff_exists.mp
        (isSome_min?_of_mem hmem)
      have hfirst_le := (List.min?_eq_some_iff.mp hfirst).2 row.positionDate hmem
      exact ⟨List.max?_mem hvalued.latest_eq, first, hfirst, by omega⟩
    obtain ⟨ps, hps⟩ := exists_polls_current collate correlationId now h (hvalued.le_latest hdate)
      hdue
    exact (polls_valued ps (hvalued.withStates _)).unclaimed latest le_rfl
      (hrevalued ps hps latest hdue (hvalued.le_latest hdate) le_rfl)
  · intro hnone ps _ date hdue _ hle
    obtain ⟨-, first, hfirst, hfirst_le⟩ := hdue
    obtain ⟨row, hrow, rfl⟩ := mem_map.mp (List.min?_mem hfirst)
    obtain ⟨hmem, hof⟩ := mem_filter.mp hrow
    obtain ⟨hkey, hepoch⟩ := of_decide_eq_true hof
    have hlater := hnone row hmem hkey hepoch
    omega

end Reset

/-! ### A correction that is not valued -/

def valuedPosition : ValuationTables where
  states := [⟨"P", "S", 0, 3, .current, 0⟩]
  jobs := [⟨"P", "S", 1, 0, .complete, false, none⟩, ⟨"P", "S", 2, 0, .complete, false, none⟩,
    ⟨"P", "S", 3, 0, .complete, false, none⟩]
  history := [⟨1, "P", "S", 0, 1, 10⟩]
  snapshots := [⟨"P", "S", 1, 0, 10⟩, ⟨"P", "S", 2, 0, 10⟩, ⟨"P", "S", 3, 0, 10⟩]
  businessDates := [1, 2, 3]
  instruments := ["S"]
  claims := []

theorem valuedPosition_valuedThrough : valuedPosition.ValuedThrough ("P", "S") 0 3 where
  keys := by decide
  row := ⟨_, rfl, rfl, rfl, rfl⟩
  latest_eq := rfl
  jobs := by
    have hcomplete : ∀ job ∈ valuedPosition.jobs, job.status = .complete := by decide
    have hexist : ∀ date ∈ valuedPosition.businessDates,
        jobScope ("P", "S") date 0 ∈ valuedPosition.jobs.map (·.scope) := by decide
    exact ⟨fun job hjob _ => hcomplete job hjob, fun date hdue => hexist date hdue.1⟩
  matched := by
    have hmatched : ∀ date ∈ valuedPosition.businessDates,
        date ∈ (valuedPosition.matchingSnapshots ("P", "S") 0).map (·.date) := by decide +kernel
    exact fun date hdue => hmatched date hdue.1
  claims_eq := rfl

theorem valuedPosition_dueOn : valuedPosition.DueOn ("P", "S") 0 2 :=
  ⟨by decide, 1, by decide, by decide⟩

/-- A reset from day 2 moves the watermark to day 1. The next poll finds every job complete and
every snapshot in place: it claims nothing and the position is current at day 3 again. -/
theorem reset_poll_claims_nothing :
    (resetImpactedWatermarks "S" 2 1 valuedPosition).states = [⟨"P", "S", 0, 1, .reprocessing, 1⟩] ∧
    (polls String.toList (fun _ _ => some "BACKFILL") [⟨100, 100, [100], none, 2⟩]
      (resetImpactedWatermarks "S" 2 1 valuedPosition)).states =
        [⟨"P", "S", 0, 3, .current, 2⟩] ∧
    (polls String.toList (fun _ _ => some "BACKFILL") [⟨100, 100, [100], none, 2⟩]
      (resetImpactedWatermarks "S" 2 1 valuedPosition)).claims = [] ∧
    valuedPosition.ValuedThrough ("P", "S") 0 3 ∧ valuedPosition.DueOn ("P", "S") 0 2 :=
  ⟨by decide +kernel, by decide +kernel, by decide +kernel, valuedPosition_valuedThrough,
    valuedPosition_dueOn⟩

/-- So the reset does not have day 2 valued again. -/
theorem reset_revalues_not_valuedPosition :
    ¬ ∀ ps, (polls String.toList (fun _ _ => some "BACKFILL") ps
        (resetImpactedWatermarks "S" 2 1 valuedPosition)).CurrentAt ("P", "S") 3 →
      ∀ date, valuedPosition.DueOn ("P", "S") 0 date → 2 ≤ date → date ≤ 3 →
        jobScope ("P", "S") date 0 ∈ (polls String.toList (fun _ _ => some "BACKFILL") ps
          (resetImpactedWatermarks "S" 2 1 valuedPosition)).claims := by
  intro hrevalued
  have hlater := (reset_revalues_iff valuedPosition_valuedThrough (by decide)).mp hrevalued
  exact absurd (hlater ⟨1, "P", "S", 0, 1, 10⟩ (by simp [valuedPosition]) rfl rfl) (by decide)

end LotusCore.Valuation
