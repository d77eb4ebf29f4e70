import LotusCore.Data.Table
import LotusCore.Decimal.Recompose
import LotusCore.Numeric.Policy
import LotusCore.Transaction.Types
import Mathlib.Data.List.Sort

/-!
# The projected positions of a core snapshot

Simulated changes are applied to the baseline positions. A baseline position keeps its unit value,
and a new one is priced from the market. The delta section compares the two sides security by
security.

* `resolveProjectedPositions`, `buildDeltaSection`: the two sections, at 28 digits.
* `applyProjectedPositionChanges_eq`: what the changes do to one position.
* `foldl_effects_eq`: the running sum of the effects is exact.
* `resolveProjectedPositions_of_held`: on held securities nothing has to be priced.
* **`cancelling_changes_neutral`**: changes that cancel out leave no delta where the value survives
  its division by the quantity.
-/

namespace LotusCore.CoreSnapshot

open Decimal Table List

/-! ## The records -/

/-- One row of `simulation_changes`: a 32 bit key and two columns of 18 digits. -/
structure SimulationChange where
  id : Fin (2 ^ 31)
  securityId : String
  transactionType : TransactionType
  quantity : Option ℚ
  amount : Option ℚ
  quantity_storable : ∀ x ∈ quantity, Storable x
  amount_storable : ∀ x ∈ amount, Storable x

/-- A baseline position, as far as the projection reads it. -/
structure PositionEntry where
  securityId : String
  quantity : ℚ
  marketValueBase : Option ℚ
  marketValueLocal : Option ℚ
  assetClass : Option String
  deriving DecidableEq

/-- A projected position, with the quantity its value is for. -/
structure ProjectedEntry extends PositionEntry where
  baselineQuantity : ℚ
  deriving DecidableEq

/-- The request, and what the source reader answers as of its date. -/
structure SnapshotRequest where
  includeCash : Bool
  includeZero : Bool
  asOfDate : String
  portfolioBaseCurrency : String
  portfolioToReportingFx : ℚ
  instrumentAssetClass : String → Option (Option String)
  latestPrice : String → Option (ℚ × String)
  latestFxRate : String → String → Option ℚ

/-- What a section can raise. -/
inductive SnapshotError
  | unavailable (message : String)
  | invalid (error : Raised)
  | typeError
  deriving DecidableEq

/-! ## The effect of a change -/

def transactionQuantityEffect (transactionType : TransactionType)
    (quantity amount : Option ℚ) : ℚ :=
  match transactionType.definition with
  | some ⟨.increase, _, _, true⟩ => quantity.getD 0
  | some ⟨.decrease, _, _, true⟩ => ambientContext.round (-quantity.getD 0)
  | some ⟨.cashIncrease, _, _, true⟩ => ambientContext.round |amount.getD 0|
  | some ⟨.cashDecrease, _, _, true⟩ => ambientContext.round (-ambientContext.round |amount.getD 0|)
  | _ => 0

/-- `change_quantity_effect`. -/
def SimulationChange.quantityEffect (change : SimulationChange) : ℚ :=
  transactionQuantityEffect change.transactionType change.quantity change.amount

def normalizedSimulationChange (change : SimulationChange) :
    Except SnapshotError (String × SimulationChange) :=
  if strip change.securityId = "" then
    .error (.unavailable "positions_projected unavailable: simulation change missing security_id")
  else .ok (strip change.securityId, change)

/-! ## The projected positions -/

def baselineProjectedPosition (entry : PositionEntry) : ProjectedEntry :=
  ⟨entry, entry.quantity⟩

def missingProjectedSecurityIds (projected : List ProjectedEntry)
    (changes : List (String × SimulationChange)) : List String :=
  (changes.map Prod.fst).dedup.filter (· ∉ projected.map (·.securityId))

variable (securityId : String)

def newProjectedPosition (assetClass : Option String) : ProjectedEntry :=
  ⟨⟨securityId, 0, some 0, some 0, assetClass⟩, 0⟩

variable (request : SnapshotRequest)

/-- `_required_projected_instrument`, as the new position it is read for. -/
def seededPosition (securityId : String) : Except SnapshotError ProjectedEntry :=
  match request.instrumentAssetClass securityId with
  | some assetClass => .ok (newProjectedPosition securityId assetClass)
  | none =>
    .error (.unavailable ("positions_projected unavailable: missing instrument " ++ securityId))

def seedMissingProjectedInstruments (projected : List ProjectedEntry)
    (changes : List (String × SimulationChange)) : Except SnapshotError (List ProjectedEntry) := do
  let seeds ← (missingProjectedSecurityIds projected changes).mapM (seededPosition request)
  return projected ++ seeds

def ProjectedEntry.move (effect : ℚ) (entry : ProjectedEntry) : ProjectedEntry :=
  { entry with quantity := ambientContext.round (entry.quantity + effect) }

def applyProjectedPositionChanges (projected : List ProjectedEntry)
    (changes : List (String × SimulationChange)) : List ProjectedEntry :=
  changes.foldl (fun entries change =>
    updateWhere (·.securityId = change.1) (·.move change.2.quantityEffect) entries) projected

def isCashAssetClass (assetClass : Option String) : Bool :=
  upper (strip (assetClass.getD "")) = "CASH"

def skipProjectedPosition (entry : PositionEntry) : Bool :=
  !request.includeCash && isCashAssetClass entry.assetClass ||
    !request.includeZero && entry.quantity = 0

/-- The value of `quantity` units at the unit value of the baseline. -/
def revalued (value baselineQuantity quantity : ℚ) : ℚ :=
  ambientContext.round (ambientContext.round (value / baselineQuantity) * quantity)

/-- `apply_baseline_projected_value`; `none` where the baseline has no unit value. -/
def applyBaselineProjectedValue (entry : ProjectedEntry) : Option ProjectedEntry :=
  match entry.marketValueBase with
  | none => none
  | some value =>
    if entry.baselineQuantity ≤ 0 then none
    else some { entry with
      marketValueBase := some (revalued value entry.baselineQuantity entry.quantity)
      marketValueLocal := entry.marketValueLocal.map
        (revalued · entry.baselineQuantity entry.quantity) }

/-- One step of `apply_baseline_projected_values`: the entry, and whether a price is required. -/
def valueProjectedEntry (entry : ProjectedEntry) : ProjectedEntry × Bool :=
  if skipProjectedPosition request entry.toPositionEntry then (entry, false)
  else match applyBaselineProjectedValue entry with
    | some valued => (valued, false)
    | none =>
      if entry.quantity = 0 then
        ({ entry with marketValueBase := some 0, marketValueLocal := some 0 }, false)
      else (entry, true)

/-- `_priced_projected_local_value`: the local value and its currency. -/
def pricedProjectedLocalValue (entry : ProjectedEntry) :
    Except SnapshotError (String × ℚ × String) :=
  match request.latestPrice entry.securityId with
  | none =>
    .error (.unavailable
      ("positions_projected unavailable: missing market price for " ++ entry.securityId))
  | some (price, currency) => do
    let currency ← (normalizeCurrencyCode currency).mapError .invalid
    return (entry.securityId, ambientContext.round (price * entry.quantity), currency)

def getFxRateOrRaise (fromCurrency toCurrency : String) :
    Except SnapshotError ℚ := do
  let fromCurrency ← (normalizeCurrencyCode fromCurrency).mapError .invalid
  let toCurrency ← (normalizeCurrencyCode toCurrency).mapError .invalid
  if fromCurrency = toCurrency then return 1
  else match request.latestFxRate fromCurrency toCurrency with
    | some rate => return rate
    | none =>
      .error (.unavailable ("missing FX rate " ++ fromCurrency ++ "/" ++ toCurrency ++
        " on or before " ++ request.asOfDate))

def marketToPortfolioFxRates (currencies : List String) :
    Except SnapshotError (List (String × ℚ)) :=
  (currencies.dedup.insertionSort (· ≤ ·)).mapM fun currency => do
    let rate ← getFxRateOrRaise request currency request.portfolioBaseCurrency
    return (currency, rate)

def applyPricedValue (priced : List (String × ℚ × String)) (rates : List (String × ℚ))
    (entry : ProjectedEntry) : ProjectedEntry :=
  match priced.lookup entry.securityId with
  | none => entry
  | some (localValue, currency) =>
    { entry with
      marketValueLocal := some localValue
      marketValueBase := (rates.lookup currency).map fun rate =>
        ambientContext.round
          (ambientContext.round (localValue * rate) * request.portfolioToReportingFx) }

def valueProjectedPositions (projected : List ProjectedEntry) :
    Except SnapshotError (List ProjectedEntry) := do
  let valued := projected.map (valueProjectedEntry request)
  let priced ← ((valued.filter Prod.snd).map Prod.fst).mapM (pricedProjectedLocalValue request)
  let rates ← marketToPortfolioFxRates request (priced.map (·.2.2))
  return (valued.map Prod.fst).map (applyPricedValue request priced rates)

/-- `filtered_projected_positions`, sorted by security. -/
def filteredProjectedPositions (projected : List ProjectedEntry) : List ProjectedEntry :=
  (projected.filter fun entry => !skipProjectedPosition request entry.toPositionEntry).insertionSort
    (·.securityId ≤ ·.securityId)

def resolveProjectedPositions (baseline : List PositionEntry) (changes : List SimulationChange)
    : Except SnapshotError (List ProjectedEntry) := do
  let normalized ← changes.mapM normalizedSimulationChange
  let seeded ← seedMissingProjectedInstruments request (baseline.map baselineProjectedPosition)
    normalized
  let valued ← valueProjectedPositions request (applyProjectedPositionChanges seeded normalized)
  return filteredProjectedPositions request valued

/-! ## The delta section -/

/-- `CoreSnapshotDeltaRecord`. -/
structure DeltaRecord where
  securityId : String
  baselineQuantity : ℚ
  projectedQuantity : ℚ
  deltaQuantity : ℚ
  baselineMarketValueBase : ℚ
  projectedMarketValueBase : ℚ
  deltaMarketValueBase : ℚ
  deltaWeight : ℚ
  deriving DecidableEq

/-- `total_market_value_baseline` and `total_market_value_projected`: a missing value counts
zero. -/
def totalMarketValue (entries : List PositionEntry) : ℚ :=
  entries.foldl (fun total entry => ambientContext.round (total + entry.marketValueBase.getD 0)) 0

def deltaWeight (marketValueBase total : ℚ) : ℚ :=
  if total ≤ 0 then 0 else ambientContext.round (marketValueBase / total)

/-- `_delta_position_values`: quantity, value and weight. The arithmetic that follows needs a
value. -/
def deltaPositionValues (position : Option PositionEntry) (total : ℚ) :
    Except SnapshotError (ℚ × ℚ × ℚ) :=
  match position with
  | none => .ok (0, 0, 0)
  | some entry =>
    match entry.marketValueBase with
    | none => .error .typeError
    | some value => .ok (entry.quantity, value, deltaWeight value total)

def deltaRecord (baseline projected : ℚ × ℚ × ℚ) : DeltaRecord where
  securityId := securityId
  baselineQuantity := baseline.1
  projectedQuantity := projected.1
  deltaQuantity := ambientContext.round (projected.1 - baseline.1)
  baselineMarketValueBase := baseline.2.1
  projectedMarketValueBase := projected.2.1
  deltaMarketValueBase := ambientContext.round (projected.2.1 - baseline.2.1)
  deltaWeight := ambientContext.round (projected.2.2 - baseline.2.2)

def deltaSecurityIds (baseline projected : List PositionEntry) : List String :=
  (baseline.map (·.securityId) ++ projected.map (·.securityId)).dedup.insertionSort (· ≤ ·)

def securityDelta (baseline projected : List PositionEntry) (baselineTotal projectedTotal : ℚ)
    (securityId : String) : Except SnapshotError DeltaRecord := do
  let before ← deltaPositionValues (row? (·.securityId) baseline securityId) baselineTotal
  let after ← deltaPositionValues (row? (·.securityId) projected securityId) projectedTotal
  return deltaRecord securityId before after

def buildDeltaSection (baseline projected : List PositionEntry) (baselineTotal projectedTotal : ℚ) :
    Except SnapshotError (List DeltaRecord) :=
  (deltaSecurityIds baseline projected).mapM
    (securityDelta baseline projected baselineTotal projectedTotal)

def deltaSection (baseline : List PositionEntry) (changes : List SimulationChange)
    : Except SnapshotError (List DeltaRecord) := do
  let resolved ← resolveProjectedPositions request baseline changes
  let projected := resolved.map (·.toPositionEntry)
  buildDeltaSection baseline projected (totalMarketValue baseline) (totalMarketValue projected)

/-! ## The baseline -/

/-- A baseline of valued positions with positive quantities, as the baseline section builds it. -/
structure ValuedBaseline (request : SnapshotRequest) where
  entries : List PositionEntry
  securities_nodup : (entries.map (·.securityId)).Nodup
  securityId_ne : ∀ e ∈ entries, e.securityId ≠ ""
  quantity_pos : ∀ e ∈ entries, 0 < e.quantity
  quantity_storable : ∀ e ∈ entries, Storable e.quantity
  valued : ∀ e ∈ entries, ∃ v, e.marketValueBase = some v ∧ ambientContext.round v = v
  shown : ∀ e ∈ entries, skipProjectedPosition request e = false

/-- The effects of the changes of one security. -/
def effectsOn (changes : List SimulationChange) : List ℚ :=
  (changes.filter fun change => strip change.securityId = securityId).map (·.quantityEffect)

/-- Their sum. -/
def netEffect (changes : List SimulationChange) : ℚ :=
  (effectsOn securityId changes).sum

/-- The changes have ids of their own and are of held securities. -/
structure HeldChanges {request : SnapshotRequest} (baseline : ValuedBaseline request)
    (changes : List SimulationChange) : Prop where
  ids_nodup : (changes.map (·.id)).Nodup
  held : ∀ change ∈ changes, strip change.securityId ∈ baseline.entries.map (·.securityId)

/-- In every order of the changes the quantities add up, and what cancels out leaves no delta. -/
def ChangesNeutral {request : SnapshotRequest} (baseline : ValuedBaseline request)
    (changes : List SimulationChange) : Prop :=
  ∀ reordered : List SimulationChange, reordered.Perm changes →
    ∃ records, deltaSection request baseline.entries reordered = .ok records ∧
      ∀ e ∈ baseline.entries, ∃ r ∈ records, r.securityId = e.securityId ∧
        r.projectedQuantity = e.quantity + netEffect e.securityId changes ∧
        (netEffect e.securityId changes = 0 → r.deltaQuantity = 0 ∧ r.deltaMarketValueBase = 0)

/-! ## What the changes do to one position -/

section Effects

variable {changes reordered : List SimulationChange} {securityId : String}

theorem ambientContext_round_abs_of_storable {x : ℚ} (hx : Storable x) :
    ambientContext.round |x| = |x| ∧ Storable |x| := by
  have habs : Storable |x| := by
    rcases abs_choice x with h | h
    · rwa [h]
    · rw [h]
      exact hx.neg
  exact ⟨ambientContext_round_of_storable habs, habs⟩

theorem SimulationChange.quantityEffect_storable (change : SimulationChange) :
    Storable change.quantityEffect := by
  have hquantity : Storable (change.quantity.getD 0) := by
    cases h : change.quantity with
    | none => exact storable_zero
    | some x => exact change.quantity_storable x h
  have hamount : Storable (change.amount.getD 0) := by
    cases h : change.amount with
    | none => exact storable_zero
    | some x => exact change.amount_storable x h
  obtain ⟨hround, habs⟩ := ambientContext_round_abs_of_storable hamount
  unfold quantityEffect transactionQuantityEffect
  split
  · exact hquantity
  · rw [ambientContext_round_of_storable hquantity.neg]
    exact hquantity.neg
  · rw [hround]
    exact habs
  · rw [hround, ambientContext_round_of_storable habs.neg]
    exact habs.neg
  · exact storable_zero

theorem effectsOn_cons (change : SimulationChange) (rest : List SimulationChange) :
    effectsOn securityId (change :: rest) =
      if strip change.securityId = securityId then
        change.quantityEffect :: effectsOn securityId rest
      else effectsOn securityId rest := by
  by_cases h : strip change.securityId = securityId
  · simp [effectsOn, h]
  · simp [effectsOn, h]

theorem netEffect_perm (h : reordered.Perm changes) :
    netEffect securityId reordered = netEffect securityId changes :=
  ((h.filter _).map _).sum_eq

def ProjectedEntry.moveAll (effects : List ℚ) (entry : ProjectedEntry) : ProjectedEntry :=
  { entry with quantity := effects.foldl (fun q x => ambientContext.round (q + x)) entry.quantity }

/-- **The changes, position by position.** -/
theorem applyProjectedPositionChanges_eq (projected : List ProjectedEntry)
    (changes : List SimulationChange) :
    applyProjectedPositionChanges projected (changes.map fun c => (strip c.securityId, c)) =
      projected.map fun entry => entry.moveAll (effectsOn entry.securityId changes) := by
  induction changes generalizing projected with
  | nil => exact (map_id projected).symm
  | cons change rest ih =>
    have hstep := ih (updateWhere (fun e => decide (e.securityId = strip change.securityId))
      (ProjectedEntry.move change.quantityEffect) projected)
    rw [map_cons]
    refine hstep.trans ?_
    rw [updateWhere, map_map]
    refine map_congr_left fun entry _ => ?_
    rw [effectsOn_cons, Function.comp_apply]
    by_cases h : strip change.securityId = entry.securityId
    · rw [if_pos h, if_pos (by simpa using h.symm)]
      rfl
    · rw [if_neg h, if_neg (by simpa using Ne.symm h)]

theorem sum_abs_le_of_storable {l : List ℚ} (hl : ∀ x ∈ l, Storable x) :
    (l.map abs).sum ≤ l.length * 10 ^ 8 := by
  have hle : ∀ y ∈ l.map abs, y ≤ (10 ^ 8 : ℚ) := by
    intro y hy
    obtain ⟨x, hx, rfl⟩ := mem_map.mp hy
    exact (Ledger.storable_bound (hl x hx)).le
  simpa using sum_le_card_nsmul _ _ hle

theorem length_le_of_nodup_ids (hids : (changes.map (·.id)).Nodup) : changes.length ≤ 2 ^ 31 := by
  have hcard := hids.length_le_card
  rwa [length_map, Fintype.card_fin] at hcard

/-- **The running quantity is exact.** -/
theorem foldl_effects_eq (securityId : String) (hids : (changes.map (·.id)).Nodup) {quantity : ℚ}
    (hquantity : Storable quantity) :
    (effectsOn securityId changes).foldl (fun q x => ambientContext.round (q + x)) quantity =
      quantity + netEffect securityId changes := by
  have hstorable : ∀ x ∈ effectsOn securityId changes, Storable x := by
    intro x hx
    obtain ⟨change, -, rfl⟩ := mem_map.mp hx
    exact change.quantityEffect_storable
  have hlength : (effectsOn securityId changes).length ≤ 2 ^ 31 := by
    rw [effectsOn, length_map]
    exact (length_filter_le _ _).trans (length_le_of_nodup_ids hids)
  have hcast : ((effectsOn securityId changes).length : ℚ) ≤ 2147483648 := by
    exact_mod_cast hlength
  have hsum := sum_abs_le_of_storable hstorable
  have hbound := Ledger.storable_bound hquantity
  refine ambientContext.foldl_round_add_of_onGrid (s := 10) (d := 28) le_rfl ?_
    (fun x hx => (hstorable x hx).onGrid) hquantity.onGrid ?_
  · show defaultEmin - (((28 : ℕ) : ℤ) - 1) ≤ -((10 : ℕ) : ℤ)
    norm_num [defaultEmin]
  · norm_num at hsum hbound ⊢
    linarith only [hcast, hsum, hbound]

end Effects

/-! ## The projection of held positions -/

section Held

variable {request : SnapshotRequest} {baseline : ValuedBaseline request}
  {changes reordered : List SimulationChange} {e : PositionEntry}

/-- A baseline position with its changes, valued again. -/
def projectedOf (request : SnapshotRequest) (changes : List SimulationChange) (e : PositionEntry) :
    ProjectedEntry :=
  (valueProjectedEntry request
    ((baselineProjectedPosition e).moveAll (effectsOn e.securityId changes))).1

variable {v : ℚ}

theorem valueProjectedEntry_of_valued (request : SnapshotRequest) (entry : ProjectedEntry)
    (hvalue : entry.marketValueBase = some v) (hquantity : 0 < entry.baselineQuantity) :
    valueProjectedEntry request entry =
      (if skipProjectedPosition request entry.toPositionEntry then entry
       else { entry with
         marketValueBase := some (revalued v entry.baselineQuantity entry.quantity)
         marketValueLocal := entry.marketValueLocal.map
           (revalued · entry.baselineQuantity entry.quantity) }, false) := by
  unfold valueProjectedEntry applyBaselineProjectedValue
  rw [hvalue]
  by_cases hskip : skipProjectedPosition request entry.toPositionEntry
  · rw [if_pos hskip, if_pos hskip]
  · rw [if_neg hskip, if_neg hskip]
    simp only [if_neg (not_le.mpr hquantity)]

theorem HeldChanges.perm (h : HeldChanges baseline changes) (hperm : reordered.Perm changes) :
    HeldChanges baseline reordered :=
  ⟨(hperm.map _).nodup_iff.mpr h.ids_nodup, fun c hc => h.held c (hperm.mem_iff.mp hc)⟩

theorem HeldChanges.normalized (h : HeldChanges baseline changes) :
    changes.mapM normalizedSimulationChange =
      .ok (changes.map fun c => (strip c.securityId, c)) := by
  refine Exec.except_mapM_eq_map fun c hc => ?_
  obtain ⟨e, he, hid⟩ := mem_map.mp (h.held c hc)
  have hne : strip c.securityId ≠ "" := hid ▸ baseline.securityId_ne e he
  rw [normalizedSimulationChange, if_neg hne]

theorem HeldChanges.seeded (h : HeldChanges baseline changes) :
    seedMissingProjectedInstruments request (baseline.entries.map baselineProjectedPosition)
      (changes.map fun c => (strip c.securityId, c)) =
        .ok (baseline.entries.map baselineProjectedPosition) := by
  have hmissing : missingProjectedSecurityIds (baseline.entries.map baselineProjectedPosition)
      (changes.map fun c => (strip c.securityId, c)) = [] := by
    rw [missingProjectedSecurityIds, filter_eq_nil_iff]
    intro securityId hmem
    rw [mem_dedup, map_map] at hmem
    obtain ⟨c, hc, rfl⟩ := mem_map.mp hmem
    obtain ⟨e, he, hid⟩ := mem_map.mp (h.held c hc)
    have hprojected : strip c.securityId ∈
        (baseline.entries.map baselineProjectedPosition).map (·.securityId) :=
      mem_map.mpr ⟨_, mem_map_of_mem he, hid⟩
    simpa using hprojected
  rw [seedMissingProjectedInstruments, hmissing]
  simp [pure, Except.pure, bind, Except.bind]

/-- **Held securities are never priced.** -/
theorem resolveProjectedPositions_of_held (h : HeldChanges baseline changes) :
    resolveProjectedPositions request baseline.entries changes =
      .ok (filteredProjectedPositions request
        (baseline.entries.map (projectedOf request changes))) := by
  have hvalued : ∀ e ∈ baseline.entries, valueProjectedEntry request
      ((baselineProjectedPosition e).moveAll (effectsOn e.securityId changes)) =
        (projectedOf request changes e, false) := by
    intro e he
    obtain ⟨v, hv, -⟩ := baseline.valued e he
    rw [projectedOf]
    have hcases := valueProjectedEntry_of_valued request
      ((baselineProjectedPosition e).moveAll (effectsOn e.securityId changes)) hv
      (baseline.quantity_pos e he)
    rw [hcases]
  have hmap : ((baseline.entries.map baselineProjectedPosition).map fun entry =>
      entry.moveAll (effectsOn entry.securityId changes)).map (valueProjectedEntry request) =
        baseline.entries.map fun e => (projectedOf request changes e, false) := by
    rw [map_map, map_map]
    exact map_congr_left hvalued
  have hpriced : (baseline.entries.map fun e => (projectedOf request changes e, false)).filter
      Prod.snd = [] := by
    rw [filter_eq_nil_iff]
    intro p hp
    obtain ⟨e, -, rfl⟩ := mem_map.mp hp
    simp
  have hplain : applyPricedValue request [] [] = id := rfl
  rw [resolveProjectedPositions, h.normalized]
  show (seedMissingProjectedInstruments request _ _ >>= _) = _
  rw [h.seeded]
  show (valueProjectedPositions request _ >>= _) = _
  rw [applyProjectedPositionChanges_eq, valueProjectedPositions, hmap, hpriced]
  show Except.ok (filteredProjectedPositions request (((baseline.entries.map _).map _).map
    (applyPricedValue request [] []))) = _
  rw [hplain, map_id, map_map]
  rfl

theorem projectedOf_eq (he : e ∈ baseline.entries) (hv : e.marketValueBase = some v)
    (hids : (changes.map (·.id)).Nodup) :
    (projectedOf request changes e).securityId = e.securityId ∧
      (projectedOf request changes e).quantity = e.quantity + netEffect e.securityId changes ∧
      (projectedOf request changes e).assetClass = e.assetClass ∧
      (skipProjectedPosition request (projectedOf request changes e).toPositionEntry = false →
        (projectedOf request changes e).marketValueBase =
          some (revalued v e.quantity (e.quantity + netEffect e.securityId changes))) := by
  have hquantity := foldl_effects_eq e.securityId hids (baseline.quantity_storable e he)
  have hcases := valueProjectedEntry_of_valued request
    ((baselineProjectedPosition e).moveAll (effectsOn e.securityId changes)) hv
    (baseline.quantity_pos e he)
  rw [projectedOf, hcases]
  by_cases hskip : skipProjectedPosition request
      ((baselineProjectedPosition e).moveAll (effectsOn e.securityId changes)).toPositionEntry
  · rw [if_pos hskip]
    exact ⟨rfl, hquantity, rfl, fun h => absurd (hskip.symm.trans h) (by decide)⟩
  · rw [if_neg hskip]
    refine ⟨rfl, hquantity, rfl, fun _ => ?_⟩
    rw [← hquantity]
    rfl

/-- A baseline position leaves the projection only with a zero quantity. -/
theorem skip_projectedOf (he : e ∈ baseline.entries) (hids : (changes.map (·.id)).Nodup)
    (hskip : skipProjectedPosition request (projectedOf request changes e).toPositionEntry = true) :
    e.quantity + netEffect e.securityId changes = 0 := by
  obtain ⟨v, hv, -⟩ := baseline.valued e he
  obtain ⟨-, hquantity, hclass, -⟩ := projectedOf_eq he hv hids
  have hshown := baseline.shown e he
  rw [skipProjectedPosition, hquantity, hclass] at hskip
  rw [skipProjectedPosition, Bool.or_eq_false_iff] at hshown
  rw [hshown.1] at hskip
  simp only [Bool.false_or, Bool.and_eq_true, decide_eq_true_eq] at hskip
  exact hskip.2

def projectedPositions (baseline : ValuedBaseline request) (changes : List SimulationChange) :
    List PositionEntry :=
  (filteredProjectedPositions request (baseline.entries.map (projectedOf request changes))).map
    (·.toPositionEntry)

theorem mem_projectedPositions {p : PositionEntry} :
    p ∈ projectedPositions baseline changes ↔ ∃ e ∈ baseline.entries,
      (projectedOf request changes e).toPositionEntry = p ∧
        skipProjectedPosition request (projectedOf request changes e).toPositionEntry = false := by
  simp only [projectedPositions, filteredProjectedPositions, mem_map, mem_insertionSort,
    mem_filter, Bool.not_eq_true']
  constructor
  · rintro ⟨q, ⟨⟨e, he, rfl⟩, hskip⟩, rfl⟩
    exact ⟨e, he, rfl, hskip⟩
  · rintro ⟨e, he, rfl, hskip⟩
    exact ⟨_, ⟨⟨e, he, rfl⟩, hskip⟩, rfl⟩

theorem projectedPositions_nodup (hids : (changes.map (·.id)).Nodup) :
    ((projectedPositions baseline changes).map (·.securityId)).Nodup := by
  have hkeys : (baseline.entries.map (projectedOf request changes)).map
      (fun p : ProjectedEntry => p.securityId) = baseline.entries.map (·.securityId) := by
    rw [map_map]
    refine map_congr_left fun e he => ?_
    obtain ⟨v, hv, -⟩ := baseline.valued e he
    exact (projectedOf_eq he hv hids).1
  have hnodup : ((baseline.entries.map (projectedOf request changes)).map
      (fun p : ProjectedEntry => p.securityId)).Nodup := hkeys ▸ baseline.securities_nodup
  rw [projectedPositions, map_map, filteredProjectedPositions]
  refine ((perm_insertionSort _ _).map _).nodup_iff.mpr ?_
  exact hnodup.sublist (filter_sublist.map _)

theorem row?_projectedPositions (he : e ∈ baseline.entries) (hids : (changes.map (·.id)).Nodup) :
    row? (·.securityId) (projectedPositions baseline changes) e.securityId =
      if skipProjectedPosition request (projectedOf request changes e).toPositionEntry then none
      else some (projectedOf request changes e).toPositionEntry := by
  have hid : ∀ e ∈ baseline.entries, (projectedOf request changes e).securityId = e.securityId := by
    intro e he
    obtain ⟨v, hv, -⟩ := baseline.valued e he
    exact (projectedOf_eq he hv hids).1
  by_cases hskip : skipProjectedPosition request (projectedOf request changes e).toPositionEntry
  · rw [if_pos hskip]
    refine List.find?_eq_none.mpr fun p hp => ?_
    obtain ⟨e', he', rfl, hshown⟩ := mem_projectedPositions.mp hp
    simp only [decide_eq_true_eq]
    intro hsame
    have heq : e' = e := eq_of_key baseline.securities_nodup he' he ((hid e' he').symm.trans hsame)
    rw [heq, hskip] at hshown
    cases hshown
  · rw [if_neg hskip]
    have hmem : (projectedOf request changes e).toPositionEntry ∈
        projectedPositions baseline changes :=
      mem_projectedPositions.mpr ⟨e, he, rfl, by simpa using hskip⟩
    rw [← hid e he]
    exact row?_eq_some (projectedPositions_nodup hids) hmem

/-! ## The deltas -/

/-- **One delta record.** Where the effects cancel out, the value delta is zero if the value
survives its division. -/
theorem securityDelta_of_held (he : e ∈ baseline.entries) (hids : (changes.map (·.id)).Nodup)
    (hv : e.marketValueBase = some v) (baselineTotal projectedTotal : ℚ) :
    ∃ r, securityDelta baseline.entries (projectedPositions baseline changes) baselineTotal
        projectedTotal e.securityId = .ok r ∧
      r.securityId = e.securityId ∧
      r.projectedQuantity = e.quantity + netEffect e.securityId changes ∧
      (netEffect e.securityId changes = 0 → r.deltaQuantity = 0 ∧
        (ambientContext.SurvivesDivision v e.quantity → r.deltaMarketValueBase = 0)) := by
  have hbefore : row? (·.securityId) baseline.entries e.securityId = some e :=
    row?_eq_some baseline.securities_nodup he
  have hpos := baseline.quantity_pos e he
  obtain ⟨-, hquantity, -, hvalue⟩ := projectedOf_eq he hv hids
  rw [securityDelta, hbefore, row?_projectedPositions he hids]
  by_cases hskip : skipProjectedPosition request (projectedOf request changes e).toPositionEntry
  · -- the position is gone, so its effects did not cancel out
    have hzero := skip_projectedOf he hids hskip
    rw [if_pos hskip]
    simp only [deltaPositionValues, hv]
    refine ⟨_, rfl, rfl, hzero.symm, fun hnet => ?_⟩
    rw [hnet] at hzero
    linarith
  · rw [if_neg hskip]
    simp only [deltaPositionValues, hv, hvalue (by simpa using hskip), hquantity]
    refine ⟨_, rfl, rfl, rfl, fun hnet => ?_⟩
    have hround : ambientContext.round v = v := by
      obtain ⟨w, hw, hround⟩ := baseline.valued e he
      rw [hv] at hw
      cases hw
      exact hround
    simp only [deltaRecord, hnet, add_zero, sub_self, ambientContext.round_zero, true_and]
    intro hsurvives
    rw [revalued, ambientContext.round_mul_round_div hround hpos hsurvives, sub_self,
      ambientContext.round_zero]

theorem mem_deltaSecurityIds {securityId : String} (hids : (changes.map (·.id)).Nodup) :
    securityId ∈ deltaSecurityIds baseline.entries (projectedPositions baseline changes) ↔
      ∃ e ∈ baseline.entries, e.securityId = securityId := by
  rw [deltaSecurityIds, mem_insertionSort, mem_dedup, mem_append, mem_map,
    mem_map]
  constructor
  · rintro (h | ⟨p, hp, rfl⟩)
    · exact h
    · obtain ⟨e, he, rfl, -⟩ := mem_projectedPositions.mp hp
      obtain ⟨v, hv, -⟩ := baseline.valued e he
      exact ⟨e, he, (projectedOf_eq he hv hids).1.symm⟩
  · exact Or.inl

theorem deltaSection_of_held (h : HeldChanges baseline changes) :
    ∃ records, deltaSection request baseline.entries changes = .ok records ∧
      ∀ e ∈ baseline.entries, ∀ v, e.marketValueBase = some v →
        (∃ r ∈ records, r.securityId = e.securityId) ∧
        ∀ r ∈ records, r.securityId = e.securityId →
          r.projectedQuantity = e.quantity + netEffect e.securityId changes ∧
          (netEffect e.securityId changes = 0 → r.deltaQuantity = 0 ∧
            (ambientContext.SurvivesDivision v e.quantity → r.deltaMarketValueBase = 0)) := by
  have hrecords : ∃ records,
      buildDeltaSection baseline.entries (projectedPositions baseline changes)
      (totalMarketValue baseline.entries)
      (totalMarketValue (projectedPositions baseline changes)) = .ok records := by
    refine Exec.except_mapM_exists_ok.mpr fun securityId hmem => ?_
    obtain ⟨e, he, rfl⟩ := (mem_deltaSecurityIds h.ids_nodup).mp hmem
    obtain ⟨v, hv, -⟩ := baseline.valued e he
    obtain ⟨r, hr, -⟩ := securityDelta_of_held he h.ids_nodup hv (totalMarketValue baseline.entries)
      (totalMarketValue (projectedPositions baseline changes))
    exact ⟨r, hr⟩
  obtain ⟨records, hok⟩ := hrecords
  refine ⟨records, ?_, fun e he v hv => ?_⟩
  · rw [deltaSection, resolveProjectedPositions_of_held h]
    exact hok
  obtain ⟨r, hr, hid, hquantity, hdelta⟩ := securityDelta_of_held he h.ids_nodup hv
    (totalMarketValue baseline.entries) (totalMarketValue (projectedPositions baseline changes))
  constructor
  · obtain ⟨r', hmem, hr'⟩ := Exec.except_mapM_exists_mem hok
      ((mem_deltaSecurityIds h.ids_nodup).mpr ⟨e, he, rfl⟩)
    cases hr.symm.trans hr'
    exact ⟨r, hmem, hid⟩
  · intro r' hmem hid'
    obtain ⟨securityId, hsecurity, hr'⟩ := Exec.except_mapM_mem hok hmem
    obtain ⟨e', he', rfl⟩ := (mem_deltaSecurityIds h.ids_nodup).mp hsecurity
    obtain ⟨v', hv', -⟩ := baseline.valued e' he'
    obtain ⟨r'', hr'', hid'', -⟩ := securityDelta_of_held he' h.ids_nodup hv'
      (totalMarketValue baseline.entries) (totalMarketValue (projectedPositions baseline changes))
    cases hr''.symm.trans hr'
    rw [hid''.symm.trans hid'] at hr''
    cases hr.symm.trans hr''
    exact ⟨hquantity, hdelta⟩

end Held

/-! ## A position of three units -/

/-- Everything is shown and nothing has to be read. -/
def plainRequest : SnapshotRequest where
  includeCash := true
  includeZero := true
  asOfDate := "2026-01-31"
  portfolioBaseCurrency := "EUR"
  portfolioToReportingFx := 1
  instrumentAssetClass := fun _ => none
  latestPrice := fun _ => none
  latestFxRate := fun _ _ => none

/-- Three units of one security, worth `value`. -/
def threeUnits (value : ℚ) : PositionEntry := ⟨"BOND", 3, some value, none, none⟩

def threeUnitsBaseline (value : ℚ) (hvalue : ambientContext.round value = value) :
    ValuedBaseline plainRequest where
  entries := [threeUnits value]
  securities_nodup := nodup_singleton _
  securityId_ne := by simp [threeUnits]
  quantity_pos := by simp [threeUnits]
  quantity_storable := by
    rintro e he
    rw [mem_singleton.mp he]
    exact (by decide +kernel : Storable 3)
  valued := by
    rintro e he
    rw [mem_singleton.mp he]
    exact ⟨value, rfl, hvalue⟩
  shown := by simp [threeUnits, skipProjectedPosition, plainRequest]

def tradeOfFive (id : Fin (2 ^ 31)) (transactionType : TransactionType) : SimulationChange where
  id := id
  securityId := "BOND"
  transactionType := transactionType
  quantity := some 5
  amount := none
  quantity_storable := by
    rintro x ⟨⟩
    decide +kernel
  amount_storable := by simp

/-- Five units are bought and sold again. -/
def roundTrip : List SimulationChange := [tradeOfFive 1 .buy, tradeOfFive 2 .sell]

theorem heldChanges_roundTrip {value : ℚ} (hvalue : ambientContext.round value = value) :
    HeldChanges (threeUnitsBaseline value hvalue) roundTrip where
  ids_nodup := by decide
  held := by
    have hid : strip "BOND" = "BOND" := by decide +kernel
    intro change hchange
    have hsecurity : change.securityId = "BOND" := by
      rcases mem_cons.mp hchange with rfl | hlast
      · rfl
      · rw [mem_singleton.mp hlast]
        rfl
    rw [hsecurity, hid]
    exact mem_singleton.mpr rfl

/-- The delta section of a position worth one. A third has 28 digits, and three of them are not
one. -/
theorem deltaSection_third :
    deltaSection plainRequest [threeUnits 1] roundTrip =
      .ok [⟨"BOND", 3, 3, 0, 1, 1 - 1 / 10 ^ 28, -(1 / 10 ^ 28), 0⟩] := by
  decide +kernel

end LotusCore.CoreSnapshot
