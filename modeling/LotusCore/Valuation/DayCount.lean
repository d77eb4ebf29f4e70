import LotusCore.Data.CivilDate
import LotusCore.Numeric.Policy
import LotusCore.Transaction.Types
import Mathlib.Data.List.Sort

/-!
# Year fractions

The day-count conventions of accrued income, with the source facts each of them needs.

* `resolveDayCountConvention`: the supported conventions, by name and version.
* `isdaLoop`, `icmaLoop`: the loops over the years and over the coupon periods of an interval.
* `calculateYearFraction`: the year fraction of an interval that includes its start and not its end.
-/

namespace LotusCore.DayCount

open Decimal

/-- The supported conventions. -/
inductive DayCountConvention
  | actual365Fixed
  | actual360
  | business252
  | thirty360Us
  | thirtyE360
  | thirtyE360Isda
  | actualActualIsda
  | actualActualIcma
  deriving Repr, DecidableEq

/-- The name of a convention. -/
def DayCountConvention.value : DayCountConvention → String
  | .actual365Fixed => "ACT/365.FIXED"
  | .actual360 => "ACT/360"
  | .business252 => "BUS/252"
  | .thirty360Us => "30/360.US"
  | .thirtyE360 => "30E/360"
  | .thirtyE360Isda => "30E/360.ISDA"
  | .actualActualIsda => "ACT/ACT.ISDA"
  | .actualActualIcma => "ACT/ACT.ICMA"

/-- The business days a source vouches for between two dates. -/
structure BusinessDayCalendar where
  calendarId : String
  calendarVersion : String
  validFrom : CivilDate
  validTo : CivilDate
  businessDates : Finset CivilDate
  sourceSystem : String
  sourceRevision : String
  nonblank : ∀ s ∈ [calendarId, calendarVersion, sourceSystem, sourceRevision], strip s ≠ ""
  window : validFrom ≤ validTo
  within : ∀ day ∈ businessDates, validFrom ≤ day ∧ day ≤ validTo
  deriving DecidableEq

/-- A regular or notional coupon period. -/
@[ext]
structure IcmaReferencePeriod where
  referenceStart : CivilDate
  referenceEnd : CivilDate
  couponFrequencyPerYear : ℕ
  nonempty : referenceStart < referenceEnd
  frequency_pos : 1 ≤ couponFrequencyPerYear

instance : DecidableEq IcmaReferencePeriod := fun _ _ =>
  decidable_of_iff' _ IcmaReferencePeriod.ext_iff

/-- The interval and the source facts of one calculation. -/
structure DayCountInputs where
  periodStart : CivilDate
  periodEnd : CivilDate
  businessDayCalendar : Option BusinessDayCalendar
  contractualTerminationDate : Option CivilDate
  icmaReferencePeriods : List IcmaReferencePeriod
  start_le : periodStart ≤ periodEnd
  le_termination : ∀ termination ∈ contractualTerminationDate, periodEnd ≤ termination

/-- A convention in one of its versions. -/
structure DayCountConventionDefinition where
  convention : DayCountConvention
  conventionVersion : ℤ
  denominator : Option ℕ
  requiresBusinessDayCalendar : Bool
  deriving Repr, DecidableEq

/-- `30/360.US` has two versions. -/
def supportedDayCountConventions : List DayCountConventionDefinition :=
  [⟨.actual365Fixed, 1, some 365, false⟩,
   ⟨.actual360, 1, some 360, false⟩,
   ⟨.business252, 1, some 252, true⟩,
   ⟨.thirty360Us, 1, some 360, false⟩,
   ⟨.thirty360Us, 2, some 360, false⟩,
   ⟨.thirtyE360, 1, some 360, false⟩,
   ⟨.thirtyE360Isda, 1, some 360, false⟩,
   ⟨.actualActualIsda, 1, none, false⟩,
   ⟨.actualActualIcma, 1, none, false⟩]

/-- The definition of a name, in any case, and a version. -/
def resolveDayCountConvention (convention : String) (conventionVersion : ℤ) :
    Except Raised DayCountConventionDefinition :=
  let normalizedConvention := upper (strip convention)
  if normalizedConvention = "" then .error (.valueError "convention must be nonblank")
  else if conventionVersion < 1 then .error (.valueError "convention_version must be positive")
  else
    match supportedDayCountConventions.find? fun definition =>
        definition.convention.value == normalizedConvention &&
          definition.conventionVersion == conventionVersion with
    | some definition => .ok definition
    | none => .error (.valueError ("unsupported day-count convention: " ++ normalizedConvention ++
        "@" ++ toString conventionVersion))

/-! ## Numerators -/

/-- The intermediate precision of every quotient and sum. -/
def dayCountContext : Context := contextOf 50 (Nat.succ_pos 49)

/-- Days over a fixed denominator. -/
def ratio (numerator : ℤ) (denominator : ℕ) : ℚ :=
  dayCountContext.round (numerator / denominator)

/-- Business days from the first day up to, without, the last. -/
def businessDayCount (inputs : DayCountInputs) : Except Raised ℤ :=
  match inputs.businessDayCalendar with
  | none => .error (.valueError "BUS/252 requires an authoritative business-day calendar")
  | some calendar =>
    if inputs.periodStart < calendar.validFrom ∨ calendar.validTo < inputs.periodEnd then
      .error (.valueError "business-day calendar does not cover the calculation interval")
    else
      .ok (calendar.businessDates.filter fun businessDate =>
        inputs.periodStart ≤ businessDate ∧ businessDate < inputs.periodEnd).card

/-- Days between two dates in months of 30 days. -/
def thirty360Numerator (periodStart periodEnd : CivilDate) (startDay endDay : ℤ) : ℤ :=
  360 * ((periodEnd.year : ℤ) - periodStart.year) + 30 * ((periodEnd.month : ℤ) - periodStart.month)
    + endDay - startDay

/-- `30/360.US`; only the second version moves the end when both dates end a February. -/
def thirty360UsDays (periodStart periodEnd : CivilDate) (adjustPairedFebruaryEom : Bool) : ℤ :=
  let endDay : ℕ :=
    if adjustPairedFebruaryEom && periodStart.isLastDayOfFebruary &&
        periodEnd.isLastDayOfFebruary then 30 else periodEnd.day
  let startDay : ℕ :=
    if periodStart.isLastDayOfFebruary || periodStart.day == 31 then 30 else periodStart.day
  let endDay : ℕ := if startDay = 30 ∧ endDay = 31 then 30 else endDay
  thirty360Numerator periodStart periodEnd startDay endDay

/-- `30E/360`: day 31 counts as 30. -/
def thirtyE360Days (periodStart periodEnd : CivilDate) : ℤ :=
  thirty360Numerator periodStart periodEnd (min periodStart.day 30 : ℕ) (min periodEnd.day 30 : ℕ)

/-- `30E/360.ISDA`: month ends count as 30, except a termination in February. -/
def thirtyE360IsdaDays (inputs : DayCountInputs) : Except Raised ℤ :=
  match inputs.contractualTerminationDate with
  | none => .error (.valueError "30E/360.ISDA requires the contractual termination date")
  | some terminationDate =>
    let startDay : ℕ := if inputs.periodStart.isLastDayOfMonth then 30 else inputs.periodStart.day
    let isFebruaryTermination := inputs.periodEnd.month = 2 ∧ inputs.periodEnd = terminationDate
    let endDay : ℕ :=
      if inputs.periodEnd.isLastDayOfMonth ∧ ¬ isFebruaryTermination then 30
      else inputs.periodEnd.day
    .ok (thirty360Numerator inputs.periodStart inputs.periodEnd startDay endDay)

/-! ## Actual days over the days of the year -/

/-- One pass of the loop: the quotient of a part of one year is added. -/
def addActual (segmentStart segmentEnd : CivilDate) (fraction : ℚ) : ℚ :=
  dayCountContext.round (fraction + dayCountContext.round
    (CivilDate.daysBetween segmentStart segmentEnd / if isLeap segmentStart.year then 366 else 365))

/-- The loop of `_actual_actual_isda_fraction`, by the number of year ends the interval crosses. -/
def isdaLoop (periodEnd : CivilDate) : ℕ → CivilDate → ℚ → ℚ
  | 0, segmentStart, fraction =>
    if segmentStart < periodEnd then addActual segmentStart periodEnd fraction else fraction
  | years + 1, segmentStart, fraction =>
    let segmentEnd := CivilDate.newYear (segmentStart.year + 1) (Nat.le_add_left _ _)
    isdaLoop periodEnd years segmentEnd (addActual segmentStart segmentEnd fraction)

/-- Each year contributes its days over 365 or 366. -/
def actualActualIsdaFraction (periodStart periodEnd : CivilDate) : ℚ :=
  dayCountContext.round (isdaLoop periodEnd (periodEnd.year - periodStart.year) periodStart 0)

/-! ## Actual days over the days of coupon periods -/

/-- One pass of the loop over the reference periods: the quotient of the part cut out is added. -/
def addReference (periodStart periodEnd : CivilDate) (reference : IcmaReferencePeriod)
    (fraction : ℚ) : ℚ :=
  let overlapStart := max periodStart reference.referenceStart
  let overlapEnd := min periodEnd reference.referenceEnd
  let referenceDays := CivilDate.daysBetween reference.referenceStart reference.referenceEnd
  dayCountContext.round (fraction + dayCountContext.round
    (CivilDate.daysBetween overlapStart overlapEnd /
      (referenceDays * reference.couponFrequencyPerYear : ℤ)))

/-- The loop of `_actual_actual_icma_fraction` over the sorted periods. -/
def icmaLoop (periodStart periodEnd : CivilDate) :
    List IcmaReferencePeriod → CivilDate → ℚ → Except Raised ℚ
  | [], coveredUntil, fraction =>
    if coveredUntil ≠ periodEnd then
      .error (.valueError "ICMA reference periods must cover the calculation interval exactly once")
    else .ok (dayCountContext.round fraction)
  | reference :: rest, coveredUntil, fraction =>
    let overlapStart := max periodStart reference.referenceStart
    let overlapEnd := min periodEnd reference.referenceEnd
    if overlapEnd ≤ overlapStart then icmaLoop periodStart periodEnd rest coveredUntil fraction
    else if overlapStart ≠ coveredUntil then
      .error (.valueError "ICMA reference periods must cover the calculation interval exactly once")
    else icmaLoop periodStart periodEnd rest overlapEnd
      (addReference periodStart periodEnd reference fraction)

/-- The order of the periods. -/
def IcmaReferencePeriod.key (reference : IcmaReferencePeriod) : CivilDate ×ₗ CivilDate :=
  toLex (reference.referenceStart, reference.referenceEnd)

/-- The periods in that order. -/
def sortedPeriods (references : List IcmaReferencePeriod) : List IcmaReferencePeriod :=
  references.insertionSort fun a b => a.key ≤ b.key

/-- Each coupon period contributes its days over its length times its frequency. -/
def actualActualIcmaFraction (inputs : DayCountInputs) : Except Raised ℚ :=
  if inputs.icmaReferencePeriods = [] then
    .error (.valueError "ACT/ACT.ICMA requires authoritative coupon reference periods")
  else
    icmaLoop inputs.periodStart inputs.periodEnd (sortedPeriods inputs.icmaReferencePeriods)
      inputs.periodStart 0

/-! ## The year fraction -/

/-- The days of a convention with a fixed denominator. -/
def fixedNumerator (definition : DayCountConventionDefinition) (inputs : DayCountInputs) :
    Except Raised ℤ :=
  if definition.convention = .thirty360Us then
    .ok (thirty360UsDays inputs.periodStart inputs.periodEnd (definition.conventionVersion == 2))
  else if definition.convention = .thirtyE360 then
    .ok (thirtyE360Days inputs.periodStart inputs.periodEnd)
  else if definition.convention = .thirtyE360Isda then thirtyE360IsdaDays inputs
  else if definition.requiresBusinessDayCalendar then businessDayCount inputs
  else .ok (CivilDate.daysBetween inputs.periodStart inputs.periodEnd)

/-- The fraction of an interval that is not empty. -/
def definedYearFraction (definition : DayCountConventionDefinition) (inputs : DayCountInputs) :
    Except Raised ℚ :=
  if definition.convention = .actualActualIsda then
    .ok (actualActualIsdaFraction inputs.periodStart inputs.periodEnd)
  else if definition.convention = .actualActualIcma then actualActualIcmaFraction inputs
  else do
    let numerator ← fixedNumerator definition inputs
    match definition.denominator with
    | none => .error (.runtimeError "fixed-denominator convention is missing its denominator")
    | some denominator => .ok (ratio numerator denominator)

/-- `calculate_year_fraction`: an empty interval has fraction zero once the convention is found. -/
def calculateYearFraction (convention : String) (conventionVersion : ℤ) (inputs : DayCountInputs) :
    Except Raised ℚ := do
  let definition ← resolveDayCountConvention convention conventionVersion
  if inputs.periodStart = inputs.periodEnd then return 0
  definedYearFraction definition inputs

end LotusCore.DayCount
