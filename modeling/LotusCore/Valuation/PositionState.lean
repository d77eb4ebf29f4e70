import LotusCore.Data.Table
import LotusCore.Errors
import Mathlib.Data.List.Sort
import Mathlib.Data.Prod.Lex
import Mathlib.Data.List.Permutation

/-!
# Position states

The table `position_state` holds the epoch and the watermark of each portfolio and security. Dates
and times are integers.

* `bulkUpdateStates`, `incrementEpochAndResetWatermark`, `updateWatermarksIfOlder`: the repository.
* `laggingStates`, `terminalReprocessingStates`: what the watermark advancer loads.
* `bulkUpdateStates_eq`: updates of distinct identities are applied row by row.
-/

namespace LotusCore

open Table List

inductive PositionStateStatus
  | current
  | reprocessing
  | snapshotOnly
  deriving DecidableEq, Repr

/-- `SCHEDULABLE_POSITION_STATE_STATUSES`. -/
def PositionStateStatus.schedulable : PositionStateStatus → Bool
  | .current | .reprocessing => true
  | .snapshotOnly => false

abbrev PositionKey := String × String

/-- A row of `position_state`. -/
structure PositionState where
  portfolioId : String
  securityId : String
  epoch : ℤ
  watermarkDate : ℤ
  status : PositionStateStatus
  updatedAt : ℤ
  deriving DecidableEq, Repr

def PositionState.key (row : PositionState) : PositionKey := (row.portfolioId, row.securityId)

abbrev positionState? (rows : List PositionState) (k : PositionKey) : Option PositionState :=
  row? PositionState.key rows k

/-! ## Updates -/

structure PositionStateUpdate where
  portfolioId : String
  securityId : String
  expectedEpoch : ℤ
  watermarkDate : ℤ
  status : PositionStateStatus
  deriving DecidableEq, Repr

variable {row : PositionState} {u : PositionStateUpdate}

namespace PositionStateUpdate

/-- What two updates of one row at one epoch share. -/
def identity (u : PositionStateUpdate) : String ×ₗ String ×ₗ ℤ :=
  toLex (u.portfolioId, toLex (u.securityId, u.expectedEpoch))

/-- The fence of an update: the row is still at the expected epoch. -/
def fits (u : PositionStateUpdate) (row : PositionState) : Bool :=
  row.portfolioId = u.portfolioId && row.securityId = u.securityId && row.epoch = u.expectedEpoch

theorem fits_iff :
    u.fits row ↔ u.identity = toLex (row.portfolioId, toLex (row.securityId, row.epoch)) := by
  simp only [fits, identity, Bool.and_eq_true, decide_eq_true_eq, EmbeddingLike.apply_eq_iff_eq,
    Prod.mk.injEq, and_assoc]
  exact ⟨fun ⟨h₁, h₂, h₃⟩ => ⟨h₁.symm, h₂.symm, h₃.symm⟩,
    fun ⟨h₁, h₂, h₃⟩ => ⟨h₁.symm, h₂.symm, h₃.symm⟩⟩

end PositionStateUpdate

/-- One round of the loop of `_normalize_state_updates`. -/
def recordStateUpdate (normalized : List PositionStateUpdate) (u : PositionStateUpdate) :
    Except Raised (List PositionStateUpdate) :=
  match normalized.find? fun v => v.identity = u.identity with
  | none => .ok (normalized ++ [u])
  | some existing =>
    if existing.watermarkDate ≠ u.watermarkDate ∨ existing.status ≠ u.status then
      .error (.valueError "conflicting position-state updates for the same epoch")
    else .ok normalized

variable (updates : List PositionStateUpdate)

def normalizeStateUpdates :
    Except Raised (List PositionStateUpdate) := do
  let normalized ← updates.foldlM recordStateUpdate []
  return normalized.insertionSort fun u v => u.identity ≤ v.identity

/-- What the statement of `bulk_update_states` sets in a row. -/
def PositionState.updatedBy (now : ℤ) (row : PositionState) : PositionState :=
  match updates.find? fun u => u.fits row with
  | none => row
  | some u => { row with watermarkDate := u.watermarkDate, status := u.status, updatedAt := now }

/-- `PositionStateRepository.bulk_update_states`: the table and the number of rows updated. -/
def bulkUpdateStates (now : ℤ) (rows : List PositionState) :
    Except Raised (List PositionState × ℕ) := do
  let normalized ← normalizeStateUpdates updates
  return (rows.map (·.updatedBy normalized now),
    rows.countP fun row => normalized.any (·.fits row))

def incrementEpochAndResetWatermark (portfolioId securityId : String)
    (expectedEpoch newWatermarkDate now : ℤ) (rows : List PositionState) : List PositionState :=
  updateWhere
    (fun row => row.portfolioId = portfolioId && row.securityId = securityId &&
      row.epoch = expectedEpoch)
    (fun row => { row with epoch := row.epoch + 1, watermarkDate := newWatermarkDate,
                           status := .reprocessing, updatedAt := now })
    rows

variable (keys : List PositionKey)

/-- The rows `update_watermarks_if_older` changes. -/
def watermarkUpdateFits (newWatermarkDate : ℤ) (touchIfAlreadyLagging : Bool)
    (expectedEpoch : Option ℤ) (row : PositionState) : Bool :=
  keys.contains row.key && (touchIfAlreadyLagging || newWatermarkDate < row.watermarkDate) &&
    (match expectedEpoch with
      | none => true
      | some epoch => row.epoch = epoch)

def updateWatermarksIfOlder (newWatermarkDate : ℤ) (touchIfAlreadyLagging : Bool)
    (expectedEpoch : Option ℤ) (now : ℤ) (rows : List PositionState) : List PositionState :=
  updateWhere (watermarkUpdateFits keys newWatermarkDate touchIfAlreadyLagging expectedEpoch)
    (fun row =>
      { row with
        watermarkDate :=
          if touchIfAlreadyLagging then
            if newWatermarkDate < row.watermarkDate then newWatermarkDate else row.watermarkDate
          else newWatermarkDate
        status := .reprocessing
        updatedAt := now })
    rows

/-! ## Queries -/

section Queries

-- The database compares the ids under its own collation.
variable {κ : Type} [LinearOrder κ] (collate : String → κ)

def PositionState.loadKey (row : PositionState) : ℤ ×ₗ κ ×ₗ κ :=
  toLex (row.updatedAt, toLex (collate row.portfolioId, collate row.securityId))

/-- The first `limit` rows that meet a condition. -/
def loadStates (p : PositionState → Bool) (limit : ℕ) (rows : List PositionState) :
    List PositionState :=
  ((rows.filter p).insertionSort fun a b => a.loadKey collate ≤ b.loadKey collate).take limit

/-- `get_lagging_states`. -/
def laggingStates (latestBusinessDate : ℤ) (limit : ℕ) (rows : List PositionState) :
    List PositionState :=
  loadStates collate (fun row => row.watermarkDate < latestBusinessDate && row.status.schedulable)
    limit rows

/-- `get_terminal_reprocessing_states`. -/
def terminalReprocessingStates (latestBusinessDate : ℤ) (limit : ℕ) (rows : List PositionState) :
    List PositionState :=
  loadStates collate
    (fun row => row.status = .reprocessing && latestBusinessDate ≤ row.watermarkDate) limit rows

theorem loadStates_subperm (p : PositionState → Bool) (limit : ℕ) (rows : List PositionState) :
    List.Subperm (loadStates collate p limit rows) rows :=
  ((take_sublist _ _).subperm.trans (perm_insertionSort _ _).subperm).trans
    filter_sublist.subperm

variable {rows : List PositionState}

theorem mem_loadStates {p : PositionState → Bool} {limit : ℕ} (h : rows.length ≤ limit) :
    row ∈ loadStates collate p limit rows ↔ row ∈ rows ∧ p row := by
  have hlength : ((rows.filter p).insertionSort fun a b =>
      a.loadKey collate ≤ b.loadKey collate).length ≤ limit := by
    rw [length_insertionSort]
    exact (length_filter_le _ _).trans h
  rw [loadStates, take_of_length_le hlength, mem_insertionSort, mem_filter]

theorem loadStates_keys_nodup (h : (rows.map PositionState.key).Nodup)
    (p : PositionState → Bool) (limit : ℕ) :
    ((loadStates collate p limit rows).map PositionState.key).Nodup := by
  obtain ⟨l, hl, hsub⟩ := loadStates_subperm collate p limit rows
  exact (hl.map _).nodup_iff.mp ((hsub.map _).nodup h)

end Queries

/-! ## What the updates do to a row -/

@[simp] theorem updatedBy_key (updates : List PositionStateUpdate) (now : ℤ) (row : PositionState) :
    (row.updatedBy updates now).key = row.key := by
  unfold PositionState.updatedBy
  split <;> rfl

theorem incrementEpochAndResetWatermark_keys (portfolioId securityId : String)
    (expectedEpoch newWatermarkDate now : ℤ) (rows : List PositionState) :
    (incrementEpochAndResetWatermark portfolioId securityId expectedEpoch newWatermarkDate now
      rows).map PositionState.key = rows.map PositionState.key :=
  updateWhere_map fun _ _ _ => rfl

theorem updateWatermarksIfOlder_keys (newWatermarkDate : ℤ) (touchIfAlreadyLagging : Bool)
    (expectedEpoch : Option ℤ) (now : ℤ) (rows : List PositionState) :
    (updateWatermarksIfOlder keys newWatermarkDate touchIfAlreadyLagging expectedEpoch now
      rows).map PositionState.key = rows.map PositionState.key :=
  updateWhere_map fun _ _ _ => rfl

/-! ## Updates of distinct identities -/

section Normalized

variable {updates : List PositionStateUpdate}

theorem foldlM_recordStateUpdate {start : List PositionStateUpdate}
    (h : ((start ++ updates).map PositionStateUpdate.identity).Nodup) :
    updates.foldlM recordStateUpdate start = .ok (start ++ updates) := by
  induction updates generalizing start with
  | nil => rw [append_nil]; rfl
  | cons u rest ih =>
    have hfresh : (start.find? fun v => v.identity = u.identity) = none := by
      rw [List.find?_eq_none]
      intro v hv hvu
      rw [map_append, map_cons] at h
      refine (nodup_append.mp h).2.2 _ (mem_map_of_mem hv) u.identity
        mem_cons_self ?_
      simpa using hvu
    have hstep : recordStateUpdate start u = .ok (start ++ [u]) := by
      rw [recordStateUpdate, hfresh]
    rw [append_cons] at h ⊢
    rw [foldlM_cons, hstep]
    exact ih h

theorem find?_fits_eq_some_iff (h : (updates.map PositionStateUpdate.identity).Nodup) :
    (updates.find? fun u => u.fits row) = some u ↔ u ∈ updates ∧ u.fits row := by
  constructor
  · intro hu
    exact ⟨mem_of_find?_eq_some hu, (List.find?_some hu :)⟩
  · intro hu
    cases hfind : updates.find? fun u => u.fits row with
    | none => exact absurd hu.2 (by simpa using List.find?_eq_none.mp hfind u hu.1)
    | some v =>
      have hv : v.fits row := (List.find?_some hfind :)
      refine congrArg some (inj_on_of_nodup_map h (mem_of_find?_eq_some hfind) hu.1 ?_)
      rw [PositionStateUpdate.fits_iff.mp hv, PositionStateUpdate.fits_iff.mp hu.2]

theorem updatedBy_perm {l : List PositionStateUpdate} (hl : l.Perm updates)
    (h : (updates.map PositionStateUpdate.identity).Nodup) (now : ℤ) (row : PositionState) :
    row.updatedBy l now = row.updatedBy updates now := by
  have hfind : (l.find? fun u => u.fits row) = updates.find? fun u => u.fits row := by
    refine Option.ext fun u => ?_
    rw [find?_fits_eq_some_iff h, find?_fits_eq_some_iff ((hl.map _).nodup_iff.mpr h),
      hl.mem_iff]
  rw [PositionState.updatedBy, PositionState.updatedBy, hfind]

theorem bulkUpdateStates_eq (h : (updates.map PositionStateUpdate.identity).Nodup) (now : ℤ)
    (rows : List PositionState) :
    bulkUpdateStates updates now rows = .ok (rows.map (·.updatedBy updates now),
      rows.countP fun row => updates.any (·.fits row)) := by
  have hfold : updates.foldlM recordStateUpdate [] = .ok updates := foldlM_recordStateUpdate h
  have hnormalized : normalizeStateUpdates updates
      = .ok (updates.insertionSort fun u v => u.identity ≤ v.identity) := by
    rw [normalizeStateUpdates, hfold]
    rfl
  have hperm := perm_insertionSort
    (fun u v : PositionStateUpdate => u.identity ≤ v.identity) updates
  rw [bulkUpdateStates, hnormalized]
  refine congrArg Except.ok (Prod.ext ?_ ?_)
  · exact map_congr_left fun row _ => updatedBy_perm hperm h now row
  · refine countP_congr fun row _ => ?_
    rw [hperm.any_eq]

end Normalized

end LotusCore
