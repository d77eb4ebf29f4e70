import LotusCore.Valuation.BackfillRun
import Mathlib.Order.Bounds.Basic

/-!
# How far a watermark may move

The advancer finds the first expected date of a position without a matching snapshot in one SQL
statement; the planner filters a list of dates that all positions of its batch share. Both mean
the dates of the calendar from the later of the day after the watermark and the first open date,
or every such day where there is no calendar.

* `OnCalendar`, `Expected`, `ValuedOn`: the dates, and what it means to be valued on one.
* `mem_expectedDates_iff`, `mem_plannedRequests_iff`: the advancer's dates and the planner's.
* `contiguousSnapshotDate_eq_some`: where the advancer's statement stops.
* **`advance_sound_maximal`**: an advance is sound and maximal, and its dates are the planner's.
-/

namespace LotusCore.Valuation

open LotusCore Table Exec List

namespace ValuationTables

variable (db : ValuationTables)

/-- A date of the calendar, or any day where there is no calendar. -/
def OnCalendar (date : ℤ) : Prop := db.businessDates = [] ∨ date ∈ db.businessDates

/-- The first day the position is expected to be valued on after its watermark. -/
def expectedStart (state : PositionState) : ℤ :=
  match db.firstOpenDate state.key state.epoch with
  | none => state.watermarkDate + 1
  | some first => max (state.watermarkDate + 1) first

/-- The position is expected to be valued on the date. -/
def Expected (state : PositionState) (date : ℤ) : Prop :=
  db.OnCalendar date ∧ db.expectedStart state ≤ date

/-- **The position has a snapshot of the date whose quantity is that of the latest history.** -/
def ValuedOn (k : PositionKey) (epoch date : ℤ) : Prop :=
  ∃ snapshot ∈ db.snapshots, (snapshot.portfolioId, snapshot.securityId) = k ∧
    snapshot.epoch = epoch ∧ snapshot.date = date ∧
      ∀ row, db.latestHistory k epoch date = some row → snapshot.quantity = row.quantity

def ContiguousThrough (state : PositionState) (date : ℤ) : Prop :=
  ∀ d, db.Expected state d → d ≤ date → db.ValuedOn state.key state.epoch d

end ValuationTables

section Dates

variable {db : ValuationTables} {state : PositionState} {latest date : ℤ}

theorem mem_daysBetween {after through : ℤ} :
    date ∈ ValuationTables.daysBetween after through ↔ after < date ∧ date ≤ through := by
  simp only [ValuationTables.daysBetween, mem_map, bind_eq_flatMap, pure_def,
    mem_flatMap, mem_range, mem_singleton]
  constructor
  · rintro ⟨_, ⟨i, hi, rfl⟩, rfl⟩
    omega
  · intro h
    exact ⟨_, ⟨(date - after - 1).toNat, by omega, rfl⟩, by omega⟩

theorem mem_valuationDatesBetween_iff {after through : ℤ} :
    date ∈ db.valuationDatesBetween after through ↔
      db.OnCalendar date ∧ after < date ∧ date ≤ through := by
  unfold ValuationTables.valuationDatesBetween ValuationTables.OnCalendar
  by_cases hdates : db.businessDates = []
  · rw [if_pos hdates, mem_daysBetween]
    simp [hdates]
  · rw [if_neg hdates, mem_insertionSort, mem_filter, mem_dedup, decide_eq_true_eq]
    simp [hdates]

theorem mem_expectedDates_iff :
    date ∈ db.expectedDates state latest ↔ db.Expected state date ∧ date ≤ latest := by
  have hdates : db.expectedDates state latest =
      db.valuationDatesBetween (db.expectedStart state - 1) latest := rfl
  rw [hdates, mem_valuationDatesBetween_iff, ValuationTables.Expected, Int.sub_one_lt_iff,
    and_assoc]

theorem mem_matchingSnapshots_iff {k : PositionKey} {epoch : ℤ} :
    date ∈ (db.matchingSnapshots k epoch).map (·.date) ↔ db.ValuedOn k epoch date := by
  rw [mem_map]
  constructor
  · rintro ⟨snapshot, hmem, rfl⟩
    rw [ValuationTables.matchingSnapshots, mem_filter, decide_eq_true_eq] at hmem
    obtain ⟨hsnapshot, rfl, rfl, hmatches⟩ := hmem
    refine ⟨snapshot, hsnapshot, rfl, rfl, rfl, fun row hrow => ?_⟩
    rw [ValuationTables.snapshotMatches, hrow] at hmatches
    simpa using hmatches
  · rintro ⟨snapshot, hsnapshot, rfl, rfl, rfl, hquantity⟩
    refine ⟨snapshot, ?_, rfl⟩
    rw [ValuationTables.matchingSnapshots, mem_filter, decide_eq_true_eq]
    refine ⟨hsnapshot, rfl, rfl, ?_⟩
    rw [ValuationTables.snapshotMatches]
    split
    · rfl
    · next row hrow => simpa using hquantity row hrow

theorem latestBusinessDate_onCalendar (h : db.latestBusinessDate = some latest) :
    db.OnCalendar latest := by
  by_cases hdates : db.businessDates = []
  · exact Or.inl hdates
  · right
    obtain ⟨last, hlast⟩ : ∃ last, db.businessDates.max? = some last :=
      Option.ne_none_iff_exists'.mp (mt List.max?_eq_none_iff.mp hdates)
    rw [ValuationTables.latestBusinessDate, hlast] at h
    exact Option.some.inj h ▸ (List.max?_eq_some_iff.mp hlast).1

/-! ### The first gap -/

theorem firstGap_eq_none (h : db.firstGap state latest = none) :
    db.ContiguousThrough state latest := by
  rw [ValuationTables.firstGap, List.min?_eq_none_iff, filter_eq_nil_iff] at h
  intro d hd hle
  have hmatched := h d (mem_expectedDates_iff.mpr ⟨hd, hle⟩)
  rw [decide_eq_true_eq, not_not] at hmatched
  exact mem_matchingSnapshots_iff.mp hmatched

theorem firstGap_eq_some {gap : ℤ} (h : db.firstGap state latest = some gap) :
    db.Expected state gap ∧ gap ≤ latest ∧ ¬ db.ValuedOn state.key state.epoch gap ∧
      db.ContiguousThrough state (gap - 1) := by
  rw [ValuationTables.firstGap, List.min?_eq_some_iff] at h
  obtain ⟨hmem, hleast⟩ := h
  obtain ⟨hexpected, hgap⟩ := mem_filter.mp hmem
  rw [decide_eq_true_eq] at hgap
  obtain ⟨hdate, hle⟩ := mem_expectedDates_iff.mp hexpected
  refine ⟨hdate, hle, mt mem_matchingSnapshots_iff.mpr hgap, fun d hd hbefore => ?_⟩
  by_contra hnot
  have hd' : d ∈ (db.expectedDates state latest).filter fun date =>
      date ∉ (db.matchingSnapshots state.key state.epoch).map (·.date) := by
    rw [mem_filter, decide_eq_true_eq]
    exact ⟨mem_expectedDates_iff.mpr ⟨hd, by omega⟩, mt mem_matchingSnapshots_iff.mp hnot⟩
  have := hleast d hd'
  omega

/-- **Where the advancer's statement stops.** What it gives beyond the watermark is contiguous; it
is the greatest such date unless no date is expected yet, and then it is the latest matching
snapshot. -/
theorem contiguousSnapshotDate_eq_some {moved : ℤ} (hlatest : db.latestBusinessDate = some latest)
    (hmoved : state.watermarkDate < moved)
    (h : db.contiguousSnapshotDate latest state = some moved) :
    moved ≤ latest ∧ db.ContiguousThrough state moved ∧
      (db.expectedStart state ≤ latest →
        IsGreatest {d | db.OnCalendar d ∧ d ≤ latest ∧ db.ContiguousThrough state d} moved) ∧
      (latest < db.expectedStart state → ∃ last,
        ((db.matchingSnapshots state.key state.epoch).map (·.date)).max? = some last ∧
          moved = min last latest) := by
  unfold ValuationTables.contiguousSnapshotDate at h
  cases hlast : ((db.matchingSnapshots state.key state.epoch).map (·.date)).max? with
  | none =>
    rw [hlast] at h
    cases h
  | some last =>
    rw [hlast] at h
    cases hgap : db.firstGap state latest with
    | none =>
      rw [hgap] at h
      obtain rfl : min last latest = moved := Option.some.inj h
      have hall := firstGap_eq_none hgap
      refine ⟨min_le_right _ _, fun d hd hle => hall d hd (by omega), fun hstart => ?_,
        fun _ => ⟨last, rfl, rfl⟩⟩
      -- the latest business date is expected, so the last snapshot reaches it
      have hvalued := hall latest ⟨latestBusinessDate_onCalendar hlatest, hstart⟩ le_rfl
      have hle : latest ≤ last :=
        (List.max?_eq_some_iff.mp hlast).2 latest (mem_matchingSnapshots_iff.mpr hvalued)
      rw [min_eq_right hle]
      exact ⟨⟨latestBusinessDate_onCalendar hlatest, le_rfl, hall⟩, fun d hd => hd.2.1⟩
    | some gap =>
      rw [hgap] at h
      dsimp only at h
      obtain ⟨hexpected, hgapLe, hunvalued, hbefore⟩ := firstGap_eq_some hgap
      have hcontiguous : moved < gap → db.ContiguousThrough state moved :=
        fun hlt d hd hle => hbefore d hd (by omega)
      have hshort : ∀ d, db.ContiguousThrough state d → d < gap := by
        intro d hd
        by_contra hnot
        exact hunvalued (hd gap hexpected (by omega))
      have hstart : db.expectedStart state ≤ latest := hexpected.2.trans hgapLe
      by_cases hdates : db.businessDates = []
      · rw [if_pos hdates] at h
        have hmovedEq : gap - 1 = moved := Option.some.inj h
        have hlt : moved < gap := by omega
        refine ⟨by omega, hcontiguous hlt, fun _ => ⟨⟨Or.inl hdates, by omega, hcontiguous hlt⟩,
          fun d hd => ?_⟩, fun hlater => absurd hlater (by omega)⟩
        have hbound := hshort d hd.2.2
        omega
      · rw [if_neg hdates, Option.some.injEq] at h
        cases hprevious : (db.businessDates.filter (· < gap)).max? with
        | none =>
          -- the statement falls back to the watermark, which is no move
          rw [hprevious, Option.getD_none] at h
          omega
        | some previous =>
          rw [hprevious, Option.getD_some] at h
          subst h
          obtain ⟨hmem, hgreatest⟩ := List.max?_eq_some_iff.mp hprevious
          obtain ⟨hcalendar, hlt⟩ := mem_filter.mp hmem
          rw [decide_eq_true_eq] at hlt
          refine ⟨by omega, hcontiguous hlt, fun _ => ⟨⟨Or.inr hcalendar, by omega,
            hcontiguous hlt⟩, fun d hd => ?_⟩, fun hlater => absurd hlater (by omega)⟩
          obtain ⟨hcal, -, hd⟩ := hd
          have hd' : d ∈ db.businessDates := hcal.resolve_left hdates
          exact hgreatest d (mem_filter.mpr ⟨hd', by simpa using hshort d hd⟩)

end Dates

/-! ### The advance -/

section Advance

variable {κ : Type} [LinearOrder κ] {collate : String → κ} {db db' : ValuationTables}
  {latest now : ℤ} {limit : ℕ} {k : PositionKey} {row row' : PositionState}

theorem advanceWatermarks_moved (hkeys : (db.states.map PositionState.key).Nodup)
    (hlatest : db.latestBusinessDate = some latest)
    (hok : advanceWatermarks collate limit now db = .ok db')
    (hrow : positionState? db.states k = some row)
    (hrow' : positionState? db'.states k = some row')
    (hmoved : row'.watermarkDate ≠ row.watermarkDate) :
    row.watermarkDate < latest ∧ row.watermarkDate < row'.watermarkDate ∧
      db.contiguousSnapshotDate latest row = some row'.watermarkDate ∧
      row'.status = if row'.watermarkDate = latest then .current else row.status := by
  have hmem : row ∈ db.states := row?_mem hrow
  obtain ⟨hterminal, hstays⟩ := updatedBy_terminal now limit collate latest hkeys hmem
  obtain rfl := Except.ok.inj ((advanceWatermarks_eq hkeys hlatest).symm.trans hok)
  rw [positionState?_updatedBy (positionState?_updatedBy hrow)] at hrow'
  obtain rfl := Option.some.inj hrow'
  by_cases hloaded : row ∈ laggingStates collate latest limit db.states
  · have hbehind : row.watermarkDate < latest := by
      have hfilter := mem_of_mem_take hloaded
      rw [mem_insertionSort, mem_filter, Bool.and_eq_true, decide_eq_true_eq] at hfilter
      exact hfilter.2.1
    have hlaggingKeys := loadStates_keys_nodup collate hkeys
    rw [hstays hbehind] at hmoved ⊢
    cases hwrites : (db.laggingAdvance collate limit latest).written row with
    | none =>
      rw [updatedBy_of_leaves fun state hstate hkey _ =>
        eq_of_key (hlaggingKeys _ _) hstate hloaded hkey ▸ hwrites] at hmoved
      exact absurd rfl hmoved
    | some w =>
      rw [updatedBy_of_state (hlaggingKeys _ _) hloaded rfl rfl hwrites]
      rw [laggingAdvance_written hkeys hloaded, Option.bind_eq_some_iff] at hwrites
      obtain ⟨date, hdate, hwrites⟩ := hwrites
      rw [Option.ite_none_right_eq_some] at hwrites
      obtain ⟨hlt, hw⟩ := hwrites
      obtain rfl := Option.some.inj hw
      exact ⟨hbehind, hlt, hdate, rfl⟩
  · -- a row that was not loaded is left alone
    rw [updatedBy_of_leaves] at hmoved
    · exact absurd hterminal hmoved
    · intro state hstate hkey _
      rw [updatedBy_key] at hkey
      have hstate' := (loadStates_subperm collate _ _ _).subset hstate
      exact absurd (eq_of_key hkeys hstate' hmem hkey ▸ hstate) hloaded

end Advance

/-! ### The planner -/

section Planner

variable {correlationId : PositionState → ℤ → Option String} {db : ValuationTables}
  {states : List PositionState} {state : PositionState} {latest first date : ℤ}

theorem expectedStart_of_history (hfirst : db.firstOpenDate state.key state.epoch = some first) :
    db.expectedStart state = max state.watermarkDate (first - 1) + 1 := by
  rw [ValuationTables.expectedStart, hfirst]
  dsimp only
  omega

variable (correlationId) in
theorem mem_buildBackfillJobRequests {dates : List ℤ} {request : ValuationJob} :
    request ∈ buildBackfillJobRequests correlationId state first dates ↔
      ∃ date ∈ dates, max state.watermarkDate (first - 1) < date ∧
        request = { portfolioId := state.portfolioId, securityId := state.securityId,
                    valuationDate := date, epoch := state.epoch,
                    correlationId := correlationId state date } := by
  unfold buildBackfillJobRequests
  rw [mem_map]
  constructor
  · rintro ⟨date, hdate, rfl⟩
    obtain ⟨hmem, hlt⟩ := mem_filter.mp hdate
    exact ⟨date, hmem, by simpa using hlt, rfl⟩
  · rintro ⟨date, hmem, hlt, rfl⟩
    exact ⟨date, mem_filter.mpr ⟨hmem, by simpa using hlt⟩, rfl⟩

/-- **In any batch, the planner requests a position with a history on its expected dates.** -/
theorem mem_plannedRequests_iff (hkeys : (states.map PositionState.key).Nodup)
    (hstate : state ∈ states) (hfirst : db.firstOpenDate state.key state.epoch = some first) :
    (∃ request ∈ plannedRequests correlationId db states latest, request.key = state.key ∧
        request.epoch = state.epoch ∧ request.valuationDate = date) ↔
      date ∈ db.expectedDates state latest := by
  have hstart : max state.watermarkDate (first - 1) ∈ backfillStarts db states :=
    mem_filterMap.mpr ⟨state, hstate, by rw [hfirst, Option.map_some]⟩
  obtain ⟨earliest, hearliest⟩ : ∃ earliest, (backfillStarts db states).min? = some earliest :=
    Option.ne_none_iff_exists'.mp
      (mt List.min?_eq_none_iff.mp (ne_nil_of_mem hstart))
  have hle : earliest ≤ max state.watermarkDate (first - 1) :=
    (List.min?_eq_some_iff.mp hearliest).2 _ hstart
  rw [plannedRequests, hearliest, mem_expectedDates_iff, ValuationTables.Expected,
    expectedStart_of_history hfirst]
  unfold backfillRequests
  dsimp only
  constructor
  · rintro ⟨request, hrequest, hkey, -, rfl⟩
    obtain ⟨other, hother, hrequest⟩ := mem_flatMap.mp hrequest
    rw [mem_insertionSort] at hother
    split at hrequest
    · cases hrequest
    · next first' hfirst' =>
      obtain ⟨date, hdate, hlt, rfl⟩ := (mem_buildBackfillJobRequests correlationId).mp hrequest
      -- the request is of this state, since the keys of the batch differ
      obtain rfl : other = state := eq_of_key hkeys hother hstate hkey
      rw [hfirst, Option.some.injEq] at hfirst'
      subst hfirst'
      obtain ⟨hcalendar, -, hthrough⟩ := mem_valuationDatesBetween_iff.mp hdate
      exact ⟨⟨hcalendar, Int.add_one_le_iff.mpr hlt⟩, hthrough⟩
  · rintro ⟨⟨hcalendar, hafter⟩, hthrough⟩
    have hdate : date ∈ db.valuationDatesBetween earliest latest :=
      mem_valuationDatesBetween_iff.mpr ⟨hcalendar, by omega, hthrough⟩
    have hrequest := (mem_buildBackfillJobRequests correlationId).mpr
      ⟨date, hdate, Int.add_one_le_iff.mp hafter, rfl⟩
    refine ⟨{ portfolioId := state.portfolioId, securityId := state.securityId,
              valuationDate := date, epoch := state.epoch,
              correlationId := correlationId state date },
      mem_flatMap.mpr ⟨state, (mem_insertionSort _).mpr hstate, ?_⟩, rfl, rfl, rfl⟩
    rw [hfirst]
    exact hrequest

end Planner

section Main

variable {κ : Type} [LinearOrder κ]

/-- **Advancing a watermark is sound, and maximal once a date is expected; and the planner's dates
are the advancer's.** Where the first open date of a position lies after the latest business date
no date is expected yet, and the watermark goes to the latest matching snapshot. -/
theorem advance_sound_maximal (collate : String → κ)
    (correlationId : PositionState → ℤ → Option String) {db : ValuationTables} {latest : ℤ}
    (hkeys : (db.states.map PositionState.key).Nodup)
    (hlatest : db.latestBusinessDate = some latest) :
    (∀ limit now db' k row row', advanceWatermarks collate limit now db = .ok db' →
      positionState? db.states k = some row → positionState? db'.states k = some row' →
      row'.watermarkDate ≠ row.watermarkDate →
        row.watermarkDate < row'.watermarkDate ∧ row'.watermarkDate ≤ latest ∧
        db.ContiguousThrough row row'.watermarkDate ∧
        ((∀ first ∈ db.firstOpenDate row.key row.epoch, first ≤ latest) →
          IsGreatest {d | db.OnCalendar d ∧ d ≤ latest ∧ db.ContiguousThrough row d}
            row'.watermarkDate) ∧
        (∀ first ∈ db.firstOpenDate row.key row.epoch, latest < first → ∃ last,
          ((db.matchingSnapshots row.key row.epoch).map (·.date)).max? = some last ∧
            row'.watermarkDate = min last latest) ∧
        row'.status = if row'.watermarkDate = latest then .current else row.status) ∧
    ∀ states : List PositionState, (states.map PositionState.key).Nodup →
      ∀ state ∈ states, (db.firstOpenDate state.key state.epoch).isSome → ∀ date,
        (∃ request ∈ plannedRequests correlationId db states latest, request.key = state.key ∧
          request.epoch = state.epoch ∧ request.valuationDate = date) ↔
            date ∈ db.expectedDates state latest := by
  constructor
  · intro limit now db' k row row' hok hrow hrow' hmoved
    obtain ⟨hbehind, hlt, hdate, hstatus⟩ :=
      advanceWatermarks_moved hkeys hlatest hok hrow hrow' hmoved
    obtain ⟨hle, hcontiguous, hgreatest, hlast⟩ := contiguousSnapshotDate_eq_some hlatest hlt hdate
    refine ⟨hlt, hle, hcontiguous, fun hopen => hgreatest ?_, fun first hfirst hafter =>
      hlast ?_, hstatus⟩
    · unfold ValuationTables.expectedStart
      split
      · omega
      · next first hfirst =>
        have hfirst' := hopen first hfirst
        omega
    · unfold ValuationTables.expectedStart
      rw [Option.mem_def.mp hfirst]
      exact lt_max_of_lt_right hafter
  · intro states hstates state hstate hhistory date
    obtain ⟨first, hfirst⟩ := Option.isSome_iff_exists.mp hhistory
    exact mem_plannedRequests_iff hstates hstate hfirst

end Main

/-- A position opened on day 2 with snapshots of days 2 and 3, on the way to day 5. -/
def laggingPosition : ValuationTables where
  states := [⟨"P", "S", 0, 1, .reprocessing, 0⟩]
  jobs := []
  history := [⟨1, "P", "S", 0, 2, 10⟩]
  snapshots := [⟨"P", "S", 2, 0, 10⟩, ⟨"P", "S", 3, 0, 10⟩]
  businessDates := [1, 2, 3, 5]
  instruments := ["S"]
  claims := []

/-- Its watermark goes to day 3, the last day before the gap on day 5. -/
theorem laggingPosition_advances :
    advanceWatermarks String.toList 10 1 laggingPosition =
        .ok { laggingPosition with states := [⟨"P", "S", 0, 3, .reprocessing, 1⟩] } ∧
      IsGreatest {d | laggingPosition.OnCalendar d ∧ d ≤ 5 ∧
        laggingPosition.ContiguousThrough ⟨"P", "S", 0, 1, .reprocessing, 0⟩ d} 3 := by
  have hok : advanceWatermarks String.toList 10 1 laggingPosition =
      .ok { laggingPosition with states := [⟨"P", "S", 0, 3, .reprocessing, 1⟩] } := by
    decide +kernel
  refine ⟨hok, ?_⟩
  have hrow : positionState? laggingPosition.states ("P", "S") =
      some ⟨"P", "S", 0, 1, .reprocessing, 0⟩ := by decide +kernel
  have hrow' : positionState? [⟨"P", "S", 0, 3, .reprocessing, 1⟩] ("P", "S") =
      some ⟨"P", "S", 0, 3, .reprocessing, 1⟩ := by decide +kernel
  have hlatest : laggingPosition.latestBusinessDate = some 5 := by decide +kernel
  have hkeys : (laggingPosition.states.map PositionState.key).Nodup := by decide
  obtain ⟨-, -, -, hgreatest, -⟩ := (advance_sound_maximal String.toList (fun _ _ => none) hkeys
    hlatest).1 10 1 _ _ _ _ hok hrow hrow' (by decide)
  exact hgreatest (by decide +kernel)

/-- A position that opens on day 15, with a snapshot of day 5, where the calendar ends on day
10. -/
def futureOpenPosition : ValuationTables where
  states := [⟨"P", "S", 0, 2, .reprocessing, 0⟩]
  jobs := []
  history := [⟨1, "P", "S", 0, 15, 10⟩]
  snapshots := [⟨"P", "S", 5, 0, 0⟩]
  businessDates := [1, 2, 3, 4, 5, 6, 7, 8, 9, 10]
  instruments := ["S"]
  claims := []

/-- **Its watermark goes to day 5, although nothing is expected up to day 10.** -/
theorem futureOpenPosition_stops_early :
    futureOpenPosition.latestBusinessDate = some 10 ∧
    advanceWatermarks String.toList 10 1 futureOpenPosition =
        .ok { futureOpenPosition with states := [⟨"P", "S", 0, 5, .reprocessing, 1⟩] } ∧
      ¬ IsGreatest {d | futureOpenPosition.OnCalendar d ∧ d ≤ 10 ∧
        futureOpenPosition.ContiguousThrough ⟨"P", "S", 0, 2, .reprocessing, 0⟩ d} 5 := by
  refine ⟨by decide +kernel, by decide +kernel, fun hgreatest => ?_⟩
  have hstart : futureOpenPosition.expectedStart ⟨"P", "S", 0, 2, .reprocessing, 0⟩ = 15 := by
    decide +kernel
  have hten : (10 : ℤ) ≤ 5 := hgreatest.2 ⟨Or.inr (by decide), le_rfl, fun d hd hle => by
    have hafter := hd.2
    omega⟩
  omega

end LotusCore.Valuation
