import LotusCore.CostBasis.AverageCost

/-!
# Disposals of a lot carried at amortized cost

A lot with an active profile is carried at the scheduled cost its periods have recognized. One
disposal takes the share of that cost the consumed quantity is of the original quantity and leaves
the exact complement, and a later disposal starts from that complement and adds the share of the
newly recognized movement.

* `allocateRecognizedLotBookCost`: one disposal, with the carrying amount of the disposal before.
* `RecognizedLotBookCost.carryForward`: what the next disposal starts from.
* `requireAmortizedEvidence`: the checks of the persisted evidence.
* **`allocateRecognizedLotBookCost_allocated`**: everything an accepted disposal has computed.
-/

namespace LotusCore

open Exec Decimal Ledger

/-! ## Profiles -/

inductive AmortizedCostProfileStatus
  | active
  | parked
  | ineligible
  | terminated
  | superseded
  deriving Repr, DecidableEq

/-- One recognition period of a profile version. -/
structure LotAmortizedCostPeriodLedgerEntry where
  periodStartDate : ℤ
  periodEndDate : ℤ
  beginAmortizedCostLocal : ℚ
  endAmortizedCostLocal : ℚ
  dates_lt : periodStartDate < periodEndDate
  begin_nonneg : 0 ≤ beginAmortizedCostLocal
  end_nonneg : 0 ≤ endAmortizedCostLocal

/-- One profile version with the facts its constructor checks: an active one has an initial cost and
contiguous periods that begin with it, another one has neither. -/
structure LotAmortizedCostProfileVersion where
  profileId : String
  profileVersion : ℕ
  contentHash : String
  effectiveDate : ℤ
  status : AmortizedCostProfileStatus
  currency : Option String
  initialAmortizedCostLocal : Option ℚ
  periods : List LotAmortizedCostPeriodLedgerEntry
  initial_nonneg : ∀ initial ∈ initialAmortizedCostLocal, 0 ≤ initial
  active_initial : status = .active → initialAmortizedCostLocal.isSome
  active_periods : status = .active → periods ≠ []
  periods_contiguous : periods.IsChain fun a b => a.periodEndDate = b.periodStartDate
  periods_begin : ∀ period ∈ periods.head?,
    some period.beginAmortizedCostLocal = initialAmortizedCostLocal
  nonactive : status ≠ .active → periods = [] ∧ initialAmortizedCostLocal = none

/-! ## Carrying amounts -/

/-- The carrying amount kept by the disposal before. -/
@[ext]
structure CarriedLotBookCost where
  scheduledCostLocal : ℚ
  residualCostLocal : ℚ
  residualCostBase : ℚ
  scheduled_nonneg : 0 ≤ scheduledCostLocal
  residual_local_nonneg : 0 ≤ residualCostLocal
  residual_base_nonneg : 0 ≤ residualCostBase

instance : DecidableEq CarriedLotBookCost := fun _ _ =>
  decidable_of_iff' _ CarriedLotBookCost.ext_iff

/-- The constructor of `CarriedLotBookCost`. -/
def CarriedLotBookCost.new (scheduled residualLocal residualBase : ℚ) :
    Except Raised CarriedLotBookCost :=
  if h₁ : 0 ≤ scheduled then
    if h₂ : 0 ≤ residualLocal then
      if h₃ : 0 ≤ residualBase then
        .ok ⟨scheduled, residualLocal, residualBase, h₁, h₂, h₃⟩
      else .error (.valueError "residual_cost_base must be non-negative")
    else .error (.valueError "residual_cost_local must be non-negative")
  else .error (.valueError "scheduled_cost_local must be non-negative")

/-- The carrying amount before a disposal and what it consumes and leaves. -/
structure RecognizedLotBookCost where
  profileId : String
  profileVersion : ℕ
  profileContentHash : String
  currency : String
  disposalDate : ℤ
  recognizedThroughDate : ℤ
  originalQuantity : ℚ
  openQuantityBefore : ℚ
  consumedQuantity : ℚ
  residualQuantity : ℚ
  scheduledCostLocal : ℚ
  currentCostLocal : ℚ
  currentCostBase : ℚ
  consumedCostLocal : ℚ
  residualCostLocal : ℚ
  bookCostFxRateToBase : ℚ
  consumedCostBase : ℚ
  residualCostBase : ℚ
  retainedRoundingResidualLocal : ℚ
  retainedRoundingResidualBase : ℚ
  deriving DecidableEq

variable (r : RecognizedLotBookCost)

/-- `carry_forward`: nothing once no quantity is left. -/
def RecognizedLotBookCost.carryForward : Except Raised (Option CarriedLotBookCost) :=
  if r.residualQuantity = 0 then .ok none
  else some <$> CarriedLotBookCost.new r.scheduledCostLocal r.residualCostLocal r.residualCostBase

/-! ## One disposal -/

def requirePositiveDecimal (value : ℚ) (fieldName : String) : Except Raised Unit :=
  refuseIf (value ≤ 0) (fieldName ++ " must be positive")

variable (profile : LotAmortizedCostProfileVersion)

/-- The refusals of `allocate_recognized_lot_book_cost` before anything is computed. -/
def requireDisposable (disposalDate : ℤ) (original openBefore consumed fxRate : ℚ)
    : Except Raised Unit := do
  refuseIf (profile.status ≠ .active) "amortized-cost disposal requires an ACTIVE profile"
  refuseIf (disposalDate < profile.effectiveDate)
    "disposal_date must not precede the effective amortized-cost profile"
  requirePositiveDecimal original "original_quantity"
  requirePositiveDecimal openBefore "open_quantity_before"
  requirePositiveDecimal consumed "consumed_quantity"
  requirePositiveDecimal fxRate "book_cost_fx_rate_to_base"
  refuseIf (original < openBefore) "open_quantity_before must not exceed original_quantity"
  refuseIf (openBefore < consumed) "consumed_quantity must not exceed open_quantity_before"

/-- The loop of `_recognized_cost_local`, which stops at the first period still open. -/
def recognizedThrough (disposalDate : ℤ) :
    List LotAmortizedCostPeriodLedgerEntry → ℚ × ℤ → ℚ × ℤ
  | [], recognized => recognized
  | period :: rest, recognized =>
    if disposalDate < period.periodEndDate then recognized
    else recognizedThrough disposalDate rest (period.endAmortizedCostLocal, period.periodEndDate)

/-- `_recognized_cost_local`: the scheduled cost at a date and the date it is recognized through. -/
def recognizedCostLocal (disposalDate : ℤ) : Except Raised (ℚ × ℤ) :=
  match profile.initialAmortizedCostLocal with
  | none => .error (.valueError "active profile is missing initial amortized cost")
  | some initial =>
    .ok (recognizedThrough disposalDate profile.periods (initial, profile.effectiveDate))

def proportionalLocalCost (scheduled quantity original : ℚ) (fieldName : String) :
    Except Raised ℚ := do
  let raw ← workingDivide (workingRound (scheduled * quantity)) original
  costBasisStateLedger.normalize raw fieldName

structure LotBookCost where
  localCost : ℚ
  baseCost : ℚ

def proportionalCost (scheduled quantity original fxRate : ℚ) (localField baseField : String) :
    Except Raised LotBookCost := do
  let localCost ← proportionalLocalCost scheduled quantity original localField
  let baseCost ← costBasisStateLedger.multiply localCost fxRate baseField
  .ok ⟨localCost, baseCost⟩

/-- `_current_carried_cost`: the share of the schedule, or what was carried and the share of the
movement since. -/
def currentCarriedCost (scheduled original openBefore fxRate : ℚ)
    (carried : Option CarriedLotBookCost) : Except Raised LotBookCost :=
  match carried with
  | none =>
    proportionalCost scheduled openBefore original fxRate "amortized_open_cost_local"
      "amortized_open_cost_base"
  | some c => do
    let movement ← costBasisStateLedger.subtract scheduled c.scheduledCostLocal
      "amortized_schedule_movement_local"
    let recognized ← proportionalCost movement openBefore original fxRate
      "amortized_open_schedule_movement_local" "amortized_open_schedule_movement_base"
    let currentLocal ← costBasisStateLedger.add c.residualCostLocal recognized.localCost
      "amortized_open_cost_local"
    let currentBase ← costBasisStateLedger.add c.residualCostBase recognized.baseCost
      "amortized_open_cost_base"
    if currentLocal < 0 ∨ currentBase < 0 then
      .error (.valueError
        "recognized schedule movement must not reduce the open carrying amount below zero")
    else .ok ⟨currentLocal, currentBase⟩

/-- The cost a disposal consumes: all of the carrying amount with the last of the quantity, the
share of the schedule otherwise. -/
def consumedBookCost (current : LotBookCost) (scheduled original openBefore consumed fxRate : ℚ) :
    Except Raised LotBookCost :=
  if consumed = openBefore then .ok current
  else proportionalCost scheduled consumed original fxRate "amortized_disposal_cost_local"
    "amortized_disposal_cost_base"

def RecognizedLotBookCost.outputPayload : List (String × ℚ) :=
  [("consumed_cost_base", r.consumedCostBase), ("consumed_cost_local", r.consumedCostLocal),
    ("consumed_quantity", r.consumedQuantity), ("current_cost_base", r.currentCostBase),
    ("current_cost_local", r.currentCostLocal), ("open_quantity_before", r.openQuantityBefore),
    ("residual_cost_base", r.residualCostBase), ("residual_cost_local", r.residualCostLocal),
    ("residual_quantity", r.residualQuantity),
    ("retained_rounding_residual_base", r.retainedRoundingResidualBase),
    ("retained_rounding_residual_local", r.retainedRoundingResidualLocal),
    ("scheduled_cost_local", r.scheduledCostLocal)]

/-- The decimals of a carrying amount in the input payload of the lineage. -/
def CarriedLotBookCost.payload (c : CarriedLotBookCost) : List (String × ℚ) :=
  [("residual_cost_base", c.residualCostBase), ("residual_cost_local", c.residualCostLocal),
    ("scheduled_cost_local", c.scheduledCostLocal)]

def RecognizedLotBookCost.inputPayload (carried : Option CarriedLotBookCost) : List (String × ℚ) :=
  ("consumed_quantity", r.consumedQuantity) ::
    ("book_cost_fx_rate_to_base", r.bookCostFxRateToBase) ::
    (carried.elim [] CarriedLotBookCost.payload ++
      [("original_quantity", r.originalQuantity), ("open_quantity_before", r.openQuantityBefore)])

def allocateRecognizedLotBookCost (disposalDate : ℤ) (original openBefore consumed fxRate : ℚ)
    (carried : Option CarriedLotBookCost) :
    Except Raised RecognizedLotBookCost := do
  requireDisposable profile disposalDate original openBefore consumed fxRate
  let (scheduled, through) ← recognizedCostLocal profile disposalDate
  let current ← currentCarriedCost scheduled original openBefore fxRate carried
  let taken ← consumedBookCost current scheduled original openBefore consumed fxRate
  let residualLocal ← costBasisStateLedger.subtract current.localCost taken.localCost
    "amortized_residual_cost_local"
  let residualQuantity ← costBasisStateLedger.subtract openBefore consumed
    "amortized_residual_quantity"
  let residualBase ← costBasisStateLedger.subtract current.baseCost taken.baseCost
    "amortized_residual_cost_base"
  let scheduledResidual ← proportionalCost scheduled residualQuantity original fxRate
    "amortized_scheduled_residual_cost_local" "amortized_scheduled_residual_cost_base"
  let retainedLocal ← costBasisStateLedger.subtract residualLocal scheduledResidual.localCost
    "amortized_retained_rounding_residual_local"
  let retainedBase ← costBasisStateLedger.subtract residualBase scheduledResidual.baseCost
    "amortized_retained_rounding_residual_base"
  let result : RecognizedLotBookCost :=
    ⟨profile.profileId, profile.profileVersion, profile.contentHash, profile.currency.getD "",
      disposalDate, through, original, openBefore, consumed, residualQuantity, scheduled,
      current.localCost, current.baseCost, taken.localCost, residualLocal, fxRate, taken.baseCost,
      residualBase, retainedLocal, retainedBase⟩
  let _ ← canonicalPayload result.outputPayload
  let _ ← canonicalPayload (result.inputPayload carried)
  .ok result

/-! ## The persisted evidence -/

/-- `_require_decimal` of the allocation evidence. -/
def requireEvidenceDecimal (fieldName : String) (value : ℚ) (positive : Bool) :
    Except Raised Unit :=
  refuseIf (value < 0 ∨ (positive ∧ value = 0))
    (fieldName ++ " must be " ++ if positive then "positive" else "non-negative")

/-- The checks of the constructor of `AmortizedCostAllocationEvidence` on dates and amounts; the two
retained roundings may have any sign. -/
def requireAmortizedEvidence : Except Raised Unit := do
  refuseIf (r.disposalDate < r.recognizedThroughDate)
    "recognized_through_date must not be after disposal_date"
  requireEvidenceDecimal "original_quantity" r.originalQuantity true
  requireEvidenceDecimal "open_quantity_before" r.openQuantityBefore true
  requireEvidenceDecimal "consumed_quantity" r.consumedQuantity true
  requireEvidenceDecimal "residual_quantity" r.residualQuantity false
  requireEvidenceDecimal "scheduled_cost_local" r.scheduledCostLocal false
  requireEvidenceDecimal "current_cost_local" r.currentCostLocal false
  requireEvidenceDecimal "current_cost_base" r.currentCostBase false
  requireEvidenceDecimal "consumed_cost_local" r.consumedCostLocal false
  requireEvidenceDecimal "residual_cost_local" r.residualCostLocal false
  requireEvidenceDecimal "book_cost_fx_rate_to_base" r.bookCostFxRateToBase true
  requireEvidenceDecimal "consumed_cost_base" r.consumedCostBase false
  requireEvidenceDecimal "residual_cost_base" r.residualCostBase false
  refuseIf (r.originalQuantity < r.openQuantityBefore)
    "open_quantity_before must not exceed original_quantity"
  refuseIf (ambientContext.round (r.consumedQuantity + r.residualQuantity) ≠ r.openQuantityBefore)
    "amortized-cost quantity does not conserve the pre-disposal lot"
  refuseIf (ambientContext.round (r.consumedCostLocal + r.residualCostLocal) ≠ r.currentCostLocal)
    "amortized local cost does not conserve current lot cost"
  refuseIf (ambientContext.round (r.consumedCostBase + r.residualCostBase) ≠ r.currentCostBase)
    "amortized base cost does not conserve current lot cost"

/-! ## Accepted disposals -/

theorem requireDisposable_eq_ok {profile : LotAmortizedCostProfileVersion} {date : ℤ}
    {original openBefore consumed fxRate : ℚ} :
    requireDisposable profile date original openBefore consumed fxRate = .ok () ↔
      profile.status = .active ∧ profile.effectiveDate ≤ date ∧ 0 < original ∧ 0 < openBefore ∧
        0 < consumed ∧ 0 < fxRate ∧ openBefore ≤ original ∧ consumed ≤ openBefore := by
  simp only [requireDisposable, requirePositiveDecimal, except_seq_eq_ok, refuseIf_eq_ok, not_not,
    ne_eq, not_lt, not_le]

/-- The recognized cost is a cost of the schedule, and it is recognized by the date. -/
theorem recognizedThrough_bounds {date through : ℤ}
    {periods : List LotAmortizedCostPeriodLedgerEntry} {cost : ℚ} (hcost : 0 ≤ cost)
    (hthrough : through ≤ date) : 0 ≤ (recognizedThrough date periods (cost, through)).1 ∧
      (recognizedThrough date periods (cost, through)).2 ≤ date := by
  induction periods generalizing cost through with
  | nil => exact ⟨hcost, hthrough⟩
  | cons period rest ih =>
    unfold recognizedThrough
    split_ifs with hopen
    · exact ⟨hcost, hthrough⟩
    · exact ih period.end_nonneg (not_lt.mp hopen)

section Allocated

variable {scheduled quantity original fxRate : ℚ} {f g : String}

theorem proportionalLocalCost_eq_ok {cost : ℚ} (h0 : 0 < original)
    (h : proportionalLocalCost scheduled quantity original f = .ok cost) :
    cost = quantize 10 (workingShare scheduled quantity original) ∧ Storable cost := by
  obtain ⟨raw, hraw, h⟩ := except_bind_eq_ok.mp h
  rw [workingDivide, if_neg h0.ne'] at hraw
  cases hraw
  exact normalize_eq_ok.mp h

structure LotBookCost.IsShare (cost : LotBookCost) (scheduled quantity original fxRate : ℚ) :
    Prop where
  localCost : cost.localCost = quantize 10 (workingShare scheduled quantity original)
  baseCost : cost.baseCost = extendedCost cost.localCost fxRate
  local_storable : Storable cost.localCost
  base_storable : Storable cost.baseCost

variable {cost : LotBookCost}

theorem LotBookCost.IsShare.nonneg
    (h : cost.IsShare scheduled quantity original fxRate) (hs : 0 ≤ scheduled) (hq : 0 ≤ quantity)
    (h0 : 0 ≤ original) (hrate : 0 ≤ fxRate) : 0 ≤ cost.localCost ∧ 0 ≤ cost.baseCost := by
  have hl : 0 ≤ cost.localCost := by
    rw [h.localCost]
    exact quantize_nonneg (workingShare_nonneg hs hq h0)
  rw [h.baseCost]
  exact ⟨hl, extendedCost_nonneg hl hrate⟩

theorem proportionalCost_isShare (h0 : 0 < original)
    (h : proportionalCost scheduled quantity original fxRate f g = .ok cost) :
    cost.IsShare scheduled quantity original fxRate := by
  obtain ⟨localCost, hl, h⟩ := except_bind_eq_ok.mp h
  obtain ⟨baseCost, hb, h⟩ := except_bind_eq_ok.mp h
  cases h
  obtain ⟨hl, hls⟩ := proportionalLocalCost_eq_ok h0 hl
  obtain ⟨hb, hbs⟩ := multiply_eq_ok.mp hb
  exact ⟨hl, hb, hls, hbs⟩

/-- The carrying amount before a disposal: the share of the schedule, or what was carried with the
share of the movement since. -/
inductive LotBookCost.IsCarrying (cost : LotBookCost) (scheduled original openBefore fxRate : ℚ) :
    Option CarriedLotBookCost → Prop
  | opening (h : cost.IsShare scheduled openBefore original fxRate) :
      cost.IsCarrying scheduled original openBefore fxRate none
  | moved (c : CarriedLotBookCost) (movement : LotBookCost)
      (hmovement : movement.IsShare (quantize 10 (workingRound (scheduled - c.scheduledCostLocal)))
        openBefore original fxRate)
      (hlocal : costBasisStateLedger.add c.residualCostLocal movement.localCost
        "amortized_open_cost_local" = .ok cost.localCost)
      (hbase : costBasisStateLedger.add c.residualCostBase movement.baseCost
        "amortized_open_cost_base" = .ok cost.baseCost)
      (local_nonneg : 0 ≤ cost.localCost) (base_nonneg : 0 ≤ cost.baseCost) :
      cost.IsCarrying scheduled original openBefore fxRate (some c)

theorem currentCarriedCost_isCarrying {openBefore : ℚ} {carried : Option CarriedLotBookCost}
    (h0 : 0 < original)
    (h : currentCarriedCost scheduled original openBefore fxRate carried = .ok cost) :
    cost.IsCarrying scheduled original openBefore fxRate carried := by
  cases carried with
  | none => exact .opening (proportionalCost_isShare h0 h)
  | some c =>
    obtain ⟨movement, hm, h⟩ := except_bind_eq_ok.mp h
    obtain ⟨recognized, hr, h⟩ := except_bind_eq_ok.mp h
    obtain ⟨currentLocal, hl, h⟩ := except_bind_eq_ok.mp h
    obtain ⟨currentBase, hb, h⟩ := except_bind_eq_ok.mp h
    split_ifs at h with hneg
    push Not at hneg
    cases h
    obtain ⟨rfl, -⟩ := normalize_eq_ok.mp hm
    exact .moved c recognized (proportionalCost_isShare h0 hr) hl hb hneg.1 hneg.2

theorem LotBookCost.IsCarrying.storable {openBefore : ℚ} {carried : Option CarriedLotBookCost}
    (h : cost.IsCarrying scheduled original openBefore fxRate carried) :
    Storable cost.localCost ∧ Storable cost.baseCost := by
  cases h with
  | opening h => exact ⟨h.local_storable, h.base_storable⟩
  | moved c movement hm hl hb => exact ⟨storable_of_add hl, storable_of_add hb⟩

end Allocated

section Accepted

variable {profile : LotAmortizedCostProfileVersion} {date : ℤ}
  {original openBefore consumed fxRate : ℚ} {carried : Option CarriedLotBookCost}

/-- What an accepted disposal has computed. -/
structure RecognizedLotBookCost.Allocated (r : RecognizedLotBookCost)
    (profile : LotAmortizedCostProfileVersion) (date : ℤ)
    (original openBefore consumed fxRate : ℚ) (carried : Option CarriedLotBookCost) : Prop where
  disposable : requireDisposable profile date original openBefore consumed fxRate = .ok ()
  disposalDate : r.disposalDate = date
  originalQuantity : r.originalQuantity = original
  openQuantityBefore : r.openQuantityBefore = openBefore
  consumedQuantity : r.consumedQuantity = consumed
  bookRate : r.bookCostFxRateToBase = fxRate
  scheduled : recognizedCostLocal profile date = .ok (r.scheduledCostLocal, r.recognizedThroughDate)
  current : LotBookCost.IsCarrying ⟨r.currentCostLocal, r.currentCostBase⟩ r.scheduledCostLocal
    original openBefore fxRate carried
  whole : consumed = openBefore →
    r.consumedCostLocal = r.currentCostLocal ∧ r.consumedCostBase = r.currentCostBase
  part : consumed ≠ openBefore → LotBookCost.IsShare ⟨r.consumedCostLocal, r.consumedCostBase⟩
    r.scheduledCostLocal consumed original fxRate
  residualQuantity : r.residualQuantity = quantize 10 (workingRound (openBefore - consumed))
  residual_local : costBasisStateLedger.subtract r.currentCostLocal r.consumedCostLocal
    "amortized_residual_cost_local" = .ok r.residualCostLocal
  residual_base : costBasisStateLedger.subtract r.currentCostBase r.consumedCostBase
    "amortized_residual_cost_base" = .ok r.residualCostBase

variable {r : RecognizedLotBookCost}

/-- **Accepted disposals.** -/
theorem allocateRecognizedLotBookCost_allocated
    (h : allocateRecognizedLotBookCost profile date original openBefore consumed fxRate carried =
      .ok r) : r.Allocated profile date original openBefore consumed fxRate carried := by
  obtain ⟨hok, h⟩ := except_seq_eq_ok.mp h
  obtain ⟨⟨scheduled, through⟩, hscheduled, h⟩ := except_bind_eq_ok.mp h
  obtain ⟨current, hcurrent, h⟩ := except_bind_eq_ok.mp h
  obtain ⟨taken, htaken, h⟩ := except_bind_eq_ok.mp h
  obtain ⟨residualLocal, hlocal, h⟩ := except_bind_eq_ok.mp h
  obtain ⟨residualQuantity, hquantity, h⟩ := except_bind_eq_ok.mp h
  obtain ⟨residualBase, hbase, h⟩ := except_bind_eq_ok.mp h
  obtain ⟨scheduledResidual, -, h⟩ := except_bind_eq_ok.mp h
  obtain ⟨retainedLocal, -, h⟩ := except_bind_eq_ok.mp h
  obtain ⟨retainedBase, -, h⟩ := except_bind_eq_ok.mp h
  obtain ⟨-, -, h⟩ := except_bind_eq_ok.mp h
  obtain ⟨-, -, h⟩ := except_bind_eq_ok.mp h
  cases h
  have h0 : 0 < original := (requireDisposable_eq_ok.mp hok).2.2.1
  refine ⟨hok, rfl, rfl, rfl, rfl, rfl, hscheduled, currentCarriedCost_isCarrying h0 hcurrent, ?_,
    ?_, (normalize_eq_ok.mp hquantity).1, hlocal, hbase⟩
  · intro heq
    rw [consumedBookCost, if_pos heq] at htaken
    cases htaken
    exact ⟨rfl, rfl⟩
  · intro hne
    rw [consumedBookCost, if_neg hne] at htaken
    exact proportionalCost_isShare h0 htaken

namespace RecognizedLotBookCost.Allocated

variable (h : r.Allocated profile date original openBefore consumed fxRate carried)
include h

theorem valid : profile.status = .active ∧ profile.effectiveDate ≤ date ∧ 0 < original ∧
    0 < openBefore ∧ 0 < consumed ∧ 0 < fxRate ∧ openBefore ≤ original ∧ consumed ≤ openBefore :=
  requireDisposable_eq_ok.mp h.disposable

theorem consumed_storable : Storable r.consumedCostLocal ∧ Storable r.consumedCostBase := by
  by_cases heq : consumed = openBefore
  · rw [(h.whole heq).1, (h.whole heq).2]
    exact h.current.storable
  · exact ⟨(h.part heq).local_storable, (h.part heq).base_storable⟩

theorem residualLocal_eq : r.residualCostLocal = r.currentCostLocal - r.consumedCostLocal :=
  ((subtract_eq_ok h.current.storable.1 h.consumed_storable.1).mp h.residual_local).1

theorem residualBase_eq : r.residualCostBase = r.currentCostBase - r.consumedCostBase :=
  ((subtract_eq_ok h.current.storable.2 h.consumed_storable.2).mp h.residual_base).1

theorem residual_storable : Storable r.residualCostLocal ∧ Storable r.residualCostBase :=
  ⟨storable_of_subtract h.residual_local, storable_of_subtract h.residual_base⟩

theorem residual_of_whole (heq : consumed = openBefore) :
    r.residualCostLocal = 0 ∧ r.residualCostBase = 0 := by
  rw [h.residualLocal_eq, h.residualBase_eq, (h.whole heq).1, (h.whole heq).2]
  exact ⟨sub_self _, sub_self _⟩

theorem scheduled_nonneg : 0 ≤ r.scheduledCostLocal ∧ r.recognizedThroughDate ≤ date := by
  have hs := h.scheduled
  unfold recognizedCostLocal at hs
  cases hi : profile.initialAmortizedCostLocal with
  | none => simp [hi] at hs
  | some initial =>
    simp only [hi, Except.ok.injEq] at hs
    have hbounds : 0 ≤ (recognizedThrough date profile.periods (initial, profile.effectiveDate)).1 ∧
        (recognizedThrough date profile.periods (initial, profile.effectiveDate)).2 ≤ date :=
      recognizedThrough_bounds (profile.initial_nonneg initial hi) h.valid.2.1
    rw [hs] at hbounds
    exact hbounds

theorem current_nonneg : 0 ≤ r.currentCostLocal ∧ 0 ≤ r.currentCostBase := by
  obtain ⟨-, -, h0, hopen, -, hrate, -, -⟩ := h.valid
  have hcurrent := h.current
  cases hcurrent with
  | opening hs => exact hs.nonneg h.scheduled_nonneg.1 hopen.le h0.le hrate.le
  | moved c movement hm hl hb hl0 hb0 => exact ⟨hl0, hb0⟩

theorem consumed_nonneg : 0 ≤ r.consumedCostLocal ∧ 0 ≤ r.consumedCostBase := by
  obtain ⟨-, -, h0, -, hconsumed, hrate, -, -⟩ := h.valid
  by_cases heq : consumed = openBefore
  · rw [(h.whole heq).1, (h.whole heq).2]
    exact h.current_nonneg
  · exact (h.part heq).nonneg h.scheduled_nonneg.1 hconsumed.le h0.le hrate.le

/-- Evidence is built from every disposal of ledger quantities that leaves nonnegative costs. -/
theorem evidence (hopen : Storable openBefore) (hconsumed : Storable consumed)
    (hlocal : 0 ≤ r.residualCostLocal) (hbase : 0 ≤ r.residualCostBase) :
    requireAmortizedEvidence r = .ok () := by
  obtain ⟨-, -, h0, hopen0, hconsumed0, hrate, hle, hle'⟩ := h.valid
  have hquantity : r.residualQuantity = openBefore - consumed := by
    have hstor : Storable (openBefore - consumed) := hopen.sub hconsumed hopen0.le hconsumed0.le
    obtain ⟨hgrid, hbound⟩ := storable_iff.mp hstor
    rw [h.residualQuantity, workingRound_of_onGrid hgrid (hbound.trans (by norm_num)),
      quantize_of_onGrid hgrid]
  have hq0 : 0 ≤ openBefore - consumed := sub_nonneg.mpr hle'
  have hsumq : ambientContext.round (consumed + (openBefore - consumed)) = openBefore := by
    rw [add_sub_cancel, ambientContext_round_of_storable hopen]
  have hsuml : ambientContext.round (r.consumedCostLocal + r.residualCostLocal) =
      r.currentCostLocal := by
    rw [h.residualLocal_eq, add_sub_cancel, ambientContext_round_of_storable h.current.storable.1]
  have hsumb : ambientContext.round (r.consumedCostBase + r.residualCostBase) =
      r.currentCostBase := by
    rw [h.residualBase_eq, add_sub_cancel, ambientContext_round_of_storable h.current.storable.2]
  simp only [requireAmortizedEvidence, requireEvidenceDecimal, except_seq_eq_ok, refuseIf_eq_ok,
    hsuml, hsumb, hquantity, h.disposalDate, h.originalQuantity, h.openQuantityBefore,
    h.consumedQuantity, h.bookRate, hsumq, not_or, not_and, not_lt, ne_eq, not_true_eq_false,
    not_false_eq_true, true_imp_iff, Bool.false_eq_true, false_imp_iff, and_true]
  exact ⟨h.scheduled_nonneg.2, ⟨h0.le, h0.ne'⟩, ⟨hopen0.le, hopen0.ne'⟩,
    ⟨hconsumed0.le, hconsumed0.ne'⟩, hq0, h.scheduled_nonneg.1, h.current_nonneg.1,
    h.current_nonneg.2, h.consumed_nonneg.1, hlocal, ⟨hrate.le, hrate.ne'⟩, h.consumed_nonneg.2,
    hbase, hle⟩

end RecognizedLotBookCost.Allocated

theorem CarriedLotBookCost.new_eq_ok {scheduled residualLocal residualBase : ℚ}
    {c : CarriedLotBookCost} :
    CarriedLotBookCost.new scheduled residualLocal residualBase = .ok c ↔
      c.scheduledCostLocal = scheduled ∧ c.residualCostLocal = residualLocal ∧
        c.residualCostBase = residualBase := by
  constructor
  · intro h
    unfold CarriedLotBookCost.new at h
    split_ifs at h
    cases h
    exact ⟨rfl, rfl, rfl⟩
  · rintro ⟨rfl, rfl, rfl⟩
    unfold CarriedLotBookCost.new
    rw [dif_pos c.scheduled_nonneg, dif_pos c.residual_local_nonneg,
      dif_pos c.residual_base_nonneg]

theorem RecognizedLotBookCost.carryForward_eq_ok (h : r.carryForward = .ok carried) :
    ∀ c ∈ carried, c.scheduledCostLocal = r.scheduledCostLocal ∧
      c.residualCostLocal = r.residualCostLocal ∧ c.residualCostBase = r.residualCostBase := by
  rintro c ⟨⟩
  unfold RecognizedLotBookCost.carryForward at h
  split_ifs at h with h0
  · cases h
  · obtain ⟨c', hc', h⟩ := except_map_eq_ok.mp h
    cases h
    exact CarriedLotBookCost.new_eq_ok.mp hc'

theorem RecognizedLotBookCost.residualQuantity_of_carryForward
    (h : r.carryForward = .ok none) : r.residualQuantity = 0 := by
  unfold RecognizedLotBookCost.carryForward at h
  split_ifs at h with h0
  · exact h0
  · obtain ⟨c', -, h⟩ := except_map_eq_ok.mp h
    cases h

end Accepted

end LotusCore
