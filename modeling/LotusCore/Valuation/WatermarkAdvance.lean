import LotusCore.Exec.Machine
import LotusCore.Valuation.PositionState

/-!
# Advancing watermarks

The scheduler loads lagging states, works out how far their watermarks may move, and writes them
back, fenced by the epoch alone. Workers reset watermarks and increment epochs meanwhile. Every
statement reads committed rows.

* `Advance`: what an advance has loaded and not yet written, with the resets committed since.
* `watermarkMachine`: any number of advances, resets and epoch increments.
* **`advanceWrite_keeps_reset_iff`**: when a write keeps a reset that was committed after its read.
-/

namespace LotusCore

open Table Exec List

/-! ## Advances -/

def buildTerminalReprocessingUpdates (states : List PositionState) : List PositionStateUpdate :=
  states.map fun state =>
    { portfolioId := state.portfolioId
      securityId := state.securityId
      expectedEpoch := state.epoch
      watermarkDate := state.watermarkDate
      status := .current }

def buildWatermarkAdvanceUpdates (states : List PositionState)
    (advancableDates : PositionKey → Option ℤ) (latestBusinessDate : ℤ) :
    List PositionStateUpdate :=
  states.filterMap fun state =>
    match advancableDates state.key with
    | none => none
    | some newWatermark =>
      if state.watermarkDate < newWatermark then
        some { portfolioId := state.portfolioId
               securityId := state.securityId
               expectedEpoch := state.epoch
               watermarkDate := newWatermark
               status := if newWatermark = latestBusinessDate then .current else state.status }
      else none

/-- Which states an advance loads, and for lagging ones the dates `find_contiguous_snapshot_dates`
gives for them. -/
inductive AdvanceLoad
  | lagging (advancableDates : PositionKey → Option ℤ)
  | terminalReprocessing

/-- An advance between its read and its write. -/
structure Advance where
  load : AdvanceLoad
  latestBusinessDate : ℤ
  states : List PositionState
  /-- The resets committed since the read, with the keys whose watermark they lowered. -/
  resets : List (PositionKey × ℤ)

def Advance.updates (a : Advance) : List PositionStateUpdate :=
  match a.load with
  | .lagging advancableDates =>
    buildWatermarkAdvanceUpdates a.states advancableDates a.latestBusinessDate
  | .terminalReprocessing => buildTerminalReprocessingUpdates a.states

/-! ## The machine -/

/-- The table and the advances in flight. -/
structure WatermarkState where
  rows : List PositionState
  advances : List Advance

inductive WatermarkStep
  | advanceRead (load : AdvanceLoad) (latestBusinessDate : ℤ) (limit : ℕ)
  | advanceWrite (i : ℕ) (now : ℤ)
  | reset (keys : List PositionKey) (newWatermarkDate : ℤ) (touchIfAlreadyLagging : Bool)
      (expectedEpoch : Option ℤ) (now : ℤ)
  | incrementEpoch (portfolioId securityId : String) (expectedEpoch newWatermarkDate now : ℤ)

def loweredKeys (keys : List PositionKey) (newWatermarkDate : ℤ) (expectedEpoch : Option ℤ)
    (rows : List PositionState) : List PositionKey :=
  (rows.filter (watermarkUpdateFits keys newWatermarkDate false expectedEpoch)).map
    PositionState.key

section Machine

variable {κ : Type} [LinearOrder κ] (collate : String → κ)

def AdvanceLoad.states (load : AdvanceLoad) (latestBusinessDate : ℤ) (limit : ℕ)
    (rows : List PositionState) : List PositionState :=
  match load with
  | .lagging _ => laggingStates collate latestBusinessDate limit rows
  | .terminalReprocessing => terminalReprocessingStates collate latestBusinessDate limit rows

/-- One step. A write that raises rolls back. -/
def watermarkStep (s : WatermarkState) : WatermarkStep → Option WatermarkState
  | .advanceRead load latestBusinessDate limit =>
    some { s with
      advances := s.advances ++
        [⟨load, latestBusinessDate, load.states collate latestBusinessDate limit s.rows, []⟩] }
  | .advanceWrite i now =>
    s.advances[i]?.map fun a =>
      { rows :=
          match bulkUpdateStates a.updates now s.rows with
          | .ok (rows, _) => rows
          | .error _ => s.rows
        advances := s.advances.eraseIdx i }
  | .reset keys newWatermarkDate touchIfAlreadyLagging expectedEpoch now =>
    some
      { rows := updateWatermarksIfOlder keys newWatermarkDate touchIfAlreadyLagging expectedEpoch
          now s.rows
        advances := s.advances.map fun a =>
          { a with
            resets := a.resets ++
              (loweredKeys keys newWatermarkDate expectedEpoch s.rows).map (·, newWatermarkDate) } }
  | .incrementEpoch portfolioId securityId expectedEpoch newWatermarkDate now =>
    some { s with
      rows := incrementEpochAndResetWatermark portfolioId securityId expectedEpoch
        newWatermarkDate now s.rows }

/-- Schedulers and workers on a table with one row for each key. -/
def watermarkMachine : Machine WatermarkState WatermarkStep where
  init s := (s.rows.map PositionState.key).Nodup ∧ s.advances = []
  step := watermarkStep collate

/-! ## The invariant -/

/-- Each key has one row, and what an advance has loaded or seen reset are keys of the table. -/
structure WatermarkState.Sound (s : WatermarkState) : Prop where
  keys : (s.rows.map PositionState.key).Nodup
  states : ∀ a ∈ s.advances, (a.states.map PositionState.key).Nodup
  resets : ∀ a ∈ s.advances, ∀ q ∈ a.resets, q.1 ∈ s.rows.map PositionState.key

end Machine

theorem terminalUpdate_identities {states : List PositionState} :
    (buildTerminalReprocessingUpdates states).map PositionStateUpdate.identity =
      states.map fun state =>
        toLex (state.portfolioId, toLex (state.securityId, state.epoch)) := by
  simp [buildTerminalReprocessingUpdates, PositionStateUpdate.identity, Function.comp_def]

theorem advanceUpdate_identities_sublist {states : List PositionState}
    {advancableDates : PositionKey → Option ℤ} {latestBusinessDate : ℤ} :
    List.Sublist
      ((buildWatermarkAdvanceUpdates states advancableDates latestBusinessDate).map
        PositionStateUpdate.identity)
      (states.map fun state =>
        toLex (state.portfolioId, toLex (state.securityId, state.epoch))) := by
  induction states with
  | nil => exact List.Sublist.slnil
  | cons state rest ih =>
    unfold buildWatermarkAdvanceUpdates at ih ⊢
    rw [filterMap_cons, map_cons]
    cases hd : advancableDates state.key with
    | none => exact ih.cons _
    | some d =>
      by_cases hlt : state.watermarkDate < d
      · simp only [if_pos hlt, map_cons]
        exact ih.cons_cons _
      · simp only [if_neg hlt]
        exact ih.cons _

theorem Advance.updates_identities_nodup {a : Advance}
    (h : (a.states.map PositionState.key).Nodup) :
    (a.updates.map PositionStateUpdate.identity).Nodup := by
  have hstates : (a.states.map fun state =>
      toLex (state.portfolioId, toLex (state.securityId, state.epoch))).Nodup := by
    refine List.Nodup.of_map (fun x => ((ofLex x).1, (ofLex (ofLex x).2).1)) ?_
    rw [map_map]
    exact h
  unfold Advance.updates
  cases a.load with
  | lagging dates => exact advanceUpdate_identities_sublist.nodup hstates
  | terminalReprocessing => rwa [terminalUpdate_identities]

section Invariant

variable {κ : Type} [LinearOrder κ] {collate : String → κ} {s t : WatermarkState}

theorem AdvanceLoad.states_keys_nodup (h : (s.rows.map PositionState.key).Nodup)
    (load : AdvanceLoad) (latestBusinessDate : ℤ) (limit : ℕ) :
    ((load.states collate latestBusinessDate limit s.rows).map PositionState.key).Nodup := by
  cases load with
  | lagging dates => exact loadStates_keys_nodup collate h _ _
  | terminalReprocessing => exact loadStates_keys_nodup collate h _ _

theorem watermarkStep_advanceWrite {i : ℕ} {now : ℤ} {a : Advance} (hs : s.Sound)
    (ha : s.advances[i]? = some a) :
    watermarkStep collate s (.advanceWrite i now) =
      some ⟨s.rows.map (·.updatedBy a.updates now), s.advances.eraseIdx i⟩ := by
  have hdistinct := a.updates_identities_nodup (hs.states a (mem_of_getElem? ha))
  rw [watermarkStep, ha, Option.map_some, bulkUpdateStates_eq hdistinct]

theorem watermarkStep_keys {step : WatermarkStep} (hs : s.Sound)
    (h : watermarkStep collate s step = some t) :
    t.rows.map PositionState.key = s.rows.map PositionState.key := by
  cases step with
  | advanceRead load latest limit =>
    rw [← Option.some.inj h]
  | advanceWrite i now =>
    cases ha : s.advances[i]? with
    | none => simp [watermarkStep, ha] at h
    | some a =>
      rw [watermarkStep_advanceWrite hs ha] at h
      rw [← Option.some.inj h, map_map]
      exact map_congr_left fun row _ => updatedBy_key _ _ row
  | reset keys new touch epoch now =>
    rw [← Option.some.inj h]
    exact updateWatermarksIfOlder_keys _ _ _ _ _ _
  | incrementEpoch p sec epoch new now =>
    rw [← Option.some.inj h]
    exact incrementEpochAndResetWatermark_keys _ _ _ _ _ _

theorem mem_advances_step {step : WatermarkStep} {a : Advance}
    (h : watermarkStep collate s step = some t) (ha : a ∈ t.advances) :
    (∃ b ∈ s.advances, a.states = b.states ∧
      ∀ q ∈ a.resets, q ∈ b.resets ∨ q.1 ∈ s.rows.map PositionState.key) ∨
    (∃ (load : AdvanceLoad) (latest : ℤ) (limit : ℕ),
      a.states = load.states collate latest limit s.rows) ∧ a.resets = [] := by
  cases step with
  | advanceRead load latest limit =>
    rw [← Option.some.inj h, mem_append, mem_singleton] at ha
    cases ha with
    | inl ha => exact .inl ⟨a, ha, rfl, fun q hq => .inl hq⟩
    | inr ha =>
      subst ha
      exact .inr ⟨⟨load, latest, limit, rfl⟩, rfl⟩
  | advanceWrite i now =>
    rw [watermarkStep, Option.map_eq_some_iff] at h
    obtain ⟨b, -, rfl⟩ := h
    exact .inl ⟨a, mem_of_mem_eraseIdx ha, rfl, fun q hq => .inl hq⟩
  | reset keys new touch epoch now =>
    rw [← Option.some.inj h, mem_map] at ha
    obtain ⟨b, hb, rfl⟩ := ha
    refine .inl ⟨b, hb, rfl, fun q hq => ?_⟩
    cases mem_append.mp hq with
    | inl hq => exact .inl hq
    | inr hq =>
      obtain ⟨k, hk, rfl⟩ := mem_map.mp hq
      exact .inr ((filter_sublist.map _).subset hk)
  | incrementEpoch p sec epoch new now =>
    rw [← Option.some.inj h] at ha
    exact .inl ⟨a, ha, rfl, fun q hq => .inl hq⟩

theorem WatermarkState.Sound.step {step : WatermarkStep} (hs : s.Sound)
    (h : watermarkStep collate s step = some t) : t.Sound := by
  have hkeys := watermarkStep_keys hs h
  refine ⟨hkeys ▸ hs.keys, fun a ha => ?_, fun a ha q hq => ?_⟩
  · rcases mem_advances_step h ha with ⟨b, hb, hstates, -⟩ | ⟨⟨load, latest, limit, hstates⟩, -⟩
    · exact hstates ▸ hs.states b hb
    · exact hstates ▸ load.states_keys_nodup hs.keys latest limit
  · rw [hkeys]
    rcases mem_advances_step h ha with ⟨b, hb, -, hresets⟩ | ⟨-, hnone⟩
    · cases hresets q hq with
      | inl hq => exact hs.resets b hb q hq
      | inr hq => exact hq
    · simp [hnone] at hq

theorem WatermarkState.Sound.of_reachable (hs : (watermarkMachine collate).Reachable s) :
    s.Sound := by
  refine hs.invariant (fun s h => ?_) fun s a t hs h => hs.step h
  exact ⟨h.1, by simp [h.2], by simp [h.2]⟩

end Invariant

/-! ## Writes and resets -/

/-- The row is as a reset to `r` leaves it, or earlier. -/
def PositionState.ResetTo (row : PositionState) (r : ℤ) : Prop :=
  row.watermarkDate ≤ r ∧ row.status = .reprocessing

/-- The advance moves the loaded state by at most `r`, short of the latest business date, and found
it already reprocessing. -/
def Advance.MovesWithin (a : Advance) (state : PositionState) (r : ℤ) : Prop :=
  match a.load with
  | .lagging advancableDates => ∃ d, advancableDates state.key = some d ∧ state.watermarkDate < d ∧
      d ≤ r ∧ d ≠ a.latestBusinessDate ∧ state.status = .reprocessing
  | .terminalReprocessing => False

/-- The advance has nothing to write for the loaded state. -/
def Advance.Leaves (a : Advance) (state : PositionState) : Prop :=
  match a.load with
  | .lagging advancableDates =>
    ∀ d, advancableDates state.key = some d → d ≤ state.watermarkDate
  | .terminalReprocessing => False

def Advance.written (a : Advance) (state : PositionState) : Option (ℤ × PositionStateStatus) :=
  match a.load with
  | .lagging advancableDates =>
    (advancableDates state.key).bind fun d =>
      if state.watermarkDate < d then
        some (d, if d = a.latestBusinessDate then .current else state.status)
      else none
  | .terminalReprocessing => some (state.watermarkDate, .current)

section Written

variable {a : Advance} {state row : PositionState} {r : ℤ}

theorem Advance.updates_eq (a : Advance) :
    a.updates = a.states.filterMap fun state => (a.written state).map fun w =>
      ⟨state.portfolioId, state.securityId, state.epoch, w.1, w.2⟩ := by
  unfold Advance.updates Advance.written
  cases a.load with
  | lagging dates =>
    refine filterMap_congr fun state _ => ?_
    dsimp only
    cases dates state.key with
    | none => rfl
    | some d =>
      dsimp only [Option.bind_some]
      by_cases hlt : state.watermarkDate < d
      · rw [if_pos hlt, if_pos hlt, Option.map_some]
      · rw [if_neg hlt, if_neg hlt, Option.map_none]
  | terminalReprocessing =>
    simp only [Option.map_some, filterMap_eq_map']
    rfl

theorem Advance.leaves_iff : a.Leaves state ↔ a.written state = none := by
  unfold Advance.Leaves Advance.written
  cases a.load with
  | lagging dates => simp [Option.bind_eq_none_iff]
  | terminalReprocessing => simp

theorem Advance.movesWithin_iff :
    a.MovesWithin state r ↔ ∃ d, a.written state = some (d, .reprocessing) ∧ d ≤ r := by
  unfold Advance.MovesWithin Advance.written
  cases a.load with
  | lagging dates =>
    refine exists_congr fun d => ?_
    constructor
    · intro ⟨hd, hlt, hle, hne, hstatus⟩
      simp [hd, hlt, hne, hstatus, hle]
    · intro ⟨hwritten, hle⟩
      rw [Option.bind_eq_some_iff] at hwritten
      obtain ⟨e, he, hwritten⟩ := hwritten
      by_cases hlt : state.watermarkDate < e
      · by_cases hlatest : e = a.latestBusinessDate
        · simp [hlatest] at hwritten
        · rw [if_pos hlt, if_neg hlatest, Option.some.injEq, Prod.mk.injEq] at hwritten
          obtain ⟨rfl, hstatus⟩ := hwritten
          exact ⟨he, hlt, hle, hlatest, hstatus⟩
      · simp [hlt] at hwritten
  | terminalReprocessing => simp

theorem fits_of_state {d : ℤ} {status : PositionStateStatus} :
    (PositionStateUpdate.fits ⟨state.portfolioId, state.securityId, state.epoch, d, status⟩ row) ↔
      state.key = row.key ∧ state.epoch = row.epoch := by
  simp only [PositionStateUpdate.fits, PositionState.key, Bool.and_eq_true, decide_eq_true_eq,
    Prod.mk.injEq]
  tauto

/-- A row whose loaded state is still at the epoch takes what the advance writes for that state. -/
theorem updatedBy_of_state {now : ℤ} {w : ℤ × PositionStateStatus}
    (ha : (a.states.map PositionState.key).Nodup) (hstate : state ∈ a.states)
    (hkey : state.key = row.key) (hepoch : state.epoch = row.epoch)
    (hw : a.written state = some w) :
    row.updatedBy a.updates now =
      { row with watermarkDate := w.1, status := w.2, updatedAt := now } := by
  have hfind := (find?_fits_eq_some_iff (a.updates_identities_nodup ha)).mpr
    ⟨a.updates_eq ▸ mem_filterMap.mpr ⟨state, hstate, by rw [hw, Option.map_some]⟩,
      fits_of_state.mpr ⟨hkey, hepoch⟩⟩
  rw [PositionState.updatedBy, hfind]

theorem updatedBy_of_leaves {now : ℤ}
    (h : ∀ state ∈ a.states, state.key = row.key → state.epoch = row.epoch →
      a.written state = none) : row.updatedBy a.updates now = row := by
  have hfind : (a.updates.find? fun u => u.fits row) = none := by
    rw [List.find?_eq_none]
    intro u hu hfits
    rw [a.updates_eq, mem_filterMap] at hu
    obtain ⟨state, hstate, hu⟩ := hu
    obtain ⟨w, hw, rfl⟩ := Option.map_eq_some_iff.mp hu
    have hrow := fits_of_state.mp hfits
    rw [h state hstate hrow.1 hrow.2] at hw
    cases hw
  rw [PositionState.updatedBy, hfind]

theorem resetTo_updatedBy_iff {now : ℤ} (ha : (a.states.map PositionState.key).Nodup) :
    (row.updatedBy a.updates now).ResetTo r ↔
      (∃ state ∈ a.states, state.key = row.key ∧ state.epoch = row.epoch ∧ a.MovesWithin state r) ∨
      row.ResetTo r ∧ ∀ state ∈ a.states, state.key = row.key → state.epoch = row.epoch →
        a.Leaves state := by
  simp only [Advance.movesWithin_iff, Advance.leaves_iff]
  by_cases h : ∃ state ∈ a.states, state.key = row.key ∧ state.epoch = row.epoch ∧
      a.written state ≠ none
  · obtain ⟨state, hstate, hkey, hepoch, hwritten⟩ := h
    obtain ⟨w, hw⟩ := Option.ne_none_iff_exists'.mp hwritten
    rw [updatedBy_of_state ha hstate hkey hepoch hw]
    constructor
    · intro ⟨hle, hstatus⟩
      exact .inl ⟨state, hstate, hkey, hepoch, w.1, hw.trans (by rw [← hstatus]), hle⟩
    · intro h
      cases h with
      | inl h =>
        -- the loaded state of a key is unique
        obtain ⟨state', hstate', hkey', -, d, hd, hle⟩ := h
        obtain rfl := eq_of_key ha hstate' hstate (hkey'.trans hkey.symm)
        obtain rfl := Option.some.inj (hd.symm.trans hw)
        exact ⟨hle, rfl⟩
      | inr h => exact absurd (h.2 state hstate hkey hepoch) hwritten
  · push Not at h
    rw [updatedBy_of_leaves h]
    constructor
    · intro hrow
      exact .inr ⟨hrow, h⟩
    · intro hor
      cases hor with
      | inl hmoves =>
        obtain ⟨state, hstate, hkey, hepoch, d, hd, -⟩ := hmoves
        rw [h state hstate hkey hepoch] at hd
        cases hd
      | inr hrow => exact hrow.1

end Written

section Main

variable {κ : Type} [LinearOrder κ] {collate : String → κ} {s t : WatermarkState}

/-- A write of an advance keeps a reset to `r` that was committed after its read exactly if the row
was still reset and the advance has nothing to write at its epoch, or what it writes is itself at
most `r`, short of the latest business date and reprocessing. The epoch is the only fence. -/
theorem advanceWrite_keeps_reset_iff {i : ℕ} {now : ℤ} {a : Advance} {k : PositionKey} {r : ℤ}
    (hs : (watermarkMachine collate).Reachable s) (ha : s.advances[i]? = some a)
    (hr : (k, r) ∈ a.resets)
    (h : (watermarkMachine collate).step s (.advanceWrite i now) = some t) :
    (∃ row, positionState? t.rows k = some row ∧ row.ResetTo r) ↔
      ∃ row, positionState? s.rows k = some row ∧
        ((∃ state ∈ a.states, state.key = k ∧ state.epoch = row.epoch ∧ a.MovesWithin state r) ∨
          row.ResetTo r ∧ ∀ state ∈ a.states, state.key = k → state.epoch = row.epoch →
            a.Leaves state) := by
  have hsound := WatermarkState.Sound.of_reachable hs
  have hmem := mem_of_getElem? ha
  have hrow := row?_isSome_iff.mpr (hsound.resets a hmem (k, r) hr)
  obtain ⟨row, hrow⟩ := Option.isSome_iff_exists.mp hrow
  have ht : t.rows = s.rows.map (·.updatedBy a.updates now) := by
    have hstep : watermarkStep collate s (.advanceWrite i now) = _ :=
      watermarkStep_advanceWrite hsound ha
    rw [Option.some.inj (h.symm.trans hstep)]
  have hafter : positionState? t.rows k = some (row.updatedBy a.updates now) := by
    rw [ht, positionState?, row?_map fun q _ => updatedBy_key _ _ q, hrow, Option.map_some]
  have hk : row.key = k := row?_key hrow
  subst hk
  simp only [hafter, hrow, Option.some.injEq, exists_eq_left']
  exact resetTo_updatedBy_iff (hsound.states a hmem)

end Main

/-! ### A lost reset -/

def laggingKey : WatermarkState := ⟨[⟨"P", "S", 0, 10, .current, 0⟩], []⟩

def laggingAdvance : Advance :=
  ⟨.lagging fun _ => some 20, 20, [⟨"P", "S", 0, 10, .current, 0⟩], [(("P", "S"), 5)]⟩

theorem laggingKey_reachable : (watermarkMachine String.toList).Reachable laggingKey :=
  .init ⟨by decide, rfl⟩

/-- A reset to day 5 between the read and the write is overwritten: the row ends current at day
20. -/
theorem advanceWrite_loses_reset : ∃ s t,
    (watermarkMachine String.toList).Reachable s ∧ s.advances[0]? = some laggingAdvance ∧
    (("P", "S"), 5) ∈ laggingAdvance.resets ∧
    (watermarkMachine String.toList).step s (.advanceWrite 0 2) = some t ∧
    t.rows = [⟨"P", "S", 0, 20, .current, 2⟩] ∧
    ¬ ∃ row, positionState? t.rows ("P", "S") = some row ∧ row.ResetTo 5 := by
  have hrun : (watermarkMachine String.toList).run laggingKey
      [.advanceRead (.lagging fun _ => some 20) 20 1, .reset [("P", "S")] 5 false none 1] =
      some ⟨[⟨"P", "S", 0, 5, .reprocessing, 1⟩], [laggingAdvance]⟩ := rfl
  refine ⟨_, ⟨[⟨"P", "S", 0, 20, .current, 2⟩], []⟩, laggingKey_reachable.run hrun, rfl, ?_, rfl,
    rfl, ?_⟩
  · exact mem_singleton.mpr rfl
  · intro ⟨row, hrow, hreset⟩
    obtain rfl := Option.some.inj hrow
    exact absurd hreset.2 (by decide)

/-- With an epoch increment after the reset the write finds no row. -/
theorem advanceWrite_keeps_reset_incremented :
    ∃ row, positionState? [⟨"P", "S", 1, 4, .reprocessing, 2⟩] ("P", "S") = some row ∧
      row.ResetTo 5 := by
  have hrun : (watermarkMachine String.toList).run laggingKey
      [.advanceRead (.lagging fun _ => some 20) 20 1, .reset [("P", "S")] 5 false none 1,
        .incrementEpoch "P" "S" 0 4 2] =
      some ⟨[⟨"P", "S", 1, 4, .reprocessing, 2⟩], [laggingAdvance]⟩ := rfl
  have hstep : (watermarkMachine String.toList).step
      ⟨[⟨"P", "S", 1, 4, .reprocessing, 2⟩], [laggingAdvance]⟩ (.advanceWrite 0 3) =
      some ⟨[⟨"P", "S", 1, 4, .reprocessing, 2⟩], []⟩ := rfl
  refine (advanceWrite_keeps_reset_iff (laggingKey_reachable.run hrun) rfl
    (mem_singleton.mpr rfl) hstep).mpr ⟨_, rfl, .inr ⟨⟨by decide, rfl⟩, ?_⟩⟩
  intro state hstate _ hepoch
  obtain rfl := mem_singleton.mp hstate
  exact absurd hepoch (by decide)

end LotusCore
