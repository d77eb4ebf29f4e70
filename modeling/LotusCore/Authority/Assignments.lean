import LotusCore.Authority.Records
import LotusCore.Transaction.Types

/-!
# Policy assignments

Sources assign an amortized-cost policy to a lot, and a valuation policy to an instrument. Each
family resolves the assignment of a scope and date, validates a whole list, and says from which date
on a correction has to be replayed.

* `LotAmortizedCostPolicyAssignment`, `InstrumentValuationPolicyAssignment`: the records, with what
  their constructors check; `lotAssignments`, `valuationAssignments`: how they are read.
* `resolveAmortizedCostAssignment`, `resolveValuationPolicyAssignment`: the assignment of a date.
* **`overlap_validation_exact`**: a list without conflicting versions is accepted exactly when no
  scope and date meets an overlap, whatever the order of the list.
-/

namespace LotusCore.Authority

open Exec Versions

/-! ## Texts, states and errors -/

/-- A text as the constructors keep it. -/
structure NormalizedText where
  value : String
  stripped : strip value = value
  nonblank : value ≠ ""
  deriving DecidableEq

/-- The life cycle of a source record, the same for assignments and facts. -/
inductive AuthorityStatus
  | active
  | suspended
  | retired
  deriving Repr, DecidableEq

/-- The errors of the two families: nothing found, more than one found, any other state of the
authority, and a refused argument. The texts a message ends with are kept as a list. -/
inductive AssignmentError
  | missing (message : String)
  | overlapping (message : String) (listed : List String)
  | authority (message : String)
  | valueError (message : String)
  deriving Repr, DecidableEq

/-- The class of an error. -/
inductive AssignmentErrorKind
  | missing
  | overlapping
  | authority
  | valueError
  deriving Repr, DecidableEq

/-- The class, without the text and the listed keys. -/
def AssignmentError.kind : AssignmentError → AssignmentErrorKind
  | .missing _ => .missing
  | .overlapping _ _ => .overlapping
  | .authority _ => .authority
  | .valueError _ => .valueError

/-- The constructor of `NormalizedText`. -/
def normalizedText (fieldName raw : String) : Except AssignmentError NormalizedText :=
  if h : strip raw = "" then .error (.valueError (fieldName ++ " must be nonblank"))
  else .ok ⟨strip raw, strip_strip raw, h⟩

theorem normalizedText_value (fieldName : String) (text : NormalizedText) :
    normalizedText fieldName text.value = .ok text := by
  have hne : ¬ strip text.value = "" := text.stripped.symm ▸ text.nonblank
  rw [normalizedText, dif_neg hne]
  congr 1
  cases text
  congr 1

/-! ## Assignments of lots -/

/-- The lot an assignment is for. -/
structure LotBookCostAuthorityScope where
  tenantId : NormalizedText
  legalBookId : NormalizedText
  portfolioId : NormalizedText
  securityId : NormalizedText
  lotId : NormalizedText
  deriving DecidableEq

/-- The scope as an error lists it. -/
def LotBookCostAuthorityScope.key (scope : LotBookCostAuthorityScope) : List String :=
  [scope.tenantId.value, scope.legalBookId.value, scope.portfolioId.value, scope.securityId.value,
    scope.lotId.value]

/-- The policy of a lot from one day on, with the source record it comes from. -/
structure LotAmortizedCostPolicyAssignment where
  scope : LotBookCostAuthorityScope
  policyId : NormalizedText
  policyVersion : ℤ
  validFrom : ℤ
  validTo : Option ℤ
  assignmentStatus : AuthorityStatus
  assignmentVersion : ℤ
  sourceSystem : NormalizedText
  sourceRecordId : NormalizedText
  sourceRevision : NormalizedText
  observedAt : ℤ
  assignmentReason : NormalizedText
  policyVersion_pos : 1 ≤ policyVersion
  assignmentVersion_pos : 1 ≤ assignmentVersion
  window : ∀ lastDay ∈ validTo, validFrom ≤ lastDay
  deriving DecidableEq

/-- How the checks read an assignment of a lot. -/
def lotAssignments : RecordView LotAmortizedCostPolicyAssignment LotBookCostAuthorityScope where
  scope := (·.scope)
  sourceSystem := (·.sourceSystem.value)
  sourceRecordId := (·.sourceRecordId.value)
  version := (·.assignmentVersion)
  validFrom := (·.validFrom)
  validTo := (·.validTo)
  active a := a.assignmentStatus = .active
  window := (·.window)

/-- The identity of a cached resolution, without the content hash. -/
structure AmortizedCostAssignmentCacheKey where
  scope : LotBookCostAuthorityScope
  effectiveDate : ℤ
  policyId : NormalizedText
  policyVersion : ℤ
  assignmentVersion : ℤ
  sourceRevision : NormalizedText
  deriving DecidableEq

/-- The assignment in force, with the key it is cached under. -/
structure ResolvedAmortizedCostAssignment where
  assignment : LotAmortizedCostPolicyAssignment
  cacheKey : AmortizedCostAssignmentCacheKey
  deriving DecidableEq

/-- Two payloads for one version of a source record. -/
def conflictingAssignments : AssignmentError :=
  .authority "conflicting payloads share one source record and assignment_version"

/-- The errors of a resolution for a lot. -/
def lotAssignmentRefusals : Refusals AssignmentError where
  conflicting := conflictingAssignments
  missing := .missing ("no active amortized-cost assignment for exact tenant, legal book, "
    ++ "portfolio, security, source lot, and date")
  overlapping := .overlapping "overlapping active amortized-cost assignments: "

/-- The one assignment in force for a lot on a day. -/
def resolveAmortizedCostAssignment (assignments : List LotAmortizedCostPolicyAssignment)
    (scope : LotBookCostAuthorityScope) (effectiveDate : ℤ) :
    Except AssignmentError ResolvedAmortizedCostAssignment := do
  let assignment ← lotAssignments.resolve lotAssignmentRefusals assignments scope effectiveDate
  return {
    assignment
    cacheKey := {
      scope := assignment.scope
      effectiveDate
      policyId := assignment.policyId
      policyVersion := assignment.policyVersion
      assignmentVersion := assignment.assignmentVersion
      sourceRevision := assignment.sourceRevision } }

/-- Active windows of one lot do not overlap. -/
def validateNoOverlappingActiveAmortizedCostAssignments
    (assignments : List LotAmortizedCostPolicyAssignment) : Except AssignmentError Unit :=
  lotAssignments.validate conflictingAssignments
    (fun scope => .overlapping "active amortized-cost assignment windows overlap for scope="
      scope.key)
    (fun a => (a.sourceSystem.value, a.sourceRecordId.value)) assignments

/-! ## Assignments of instruments -/

/-- The instrument an assignment is for. -/
structure ValuationAuthorityScope where
  tenantId : NormalizedText
  legalBookId : NormalizedText
  securityId : NormalizedText
  deriving DecidableEq

/-- The constructor of `ValuationAuthorityScope`. -/
def valuationAuthorityScope (tenantId legalBookId securityId : String) :
    Except AssignmentError ValuationAuthorityScope := do
  let tenantId ← normalizedText "tenant_id" tenantId
  let legalBookId ← normalizedText "legal_book_id" legalBookId
  let securityId ← normalizedText "security_id" securityId
  return { tenantId, legalBookId, securityId }

/-- The texts of this record are stored as they come and stripped where they are read. -/
structure InstrumentValuationPolicyAssignment where
  tenantId : String
  legalBookId : String
  securityId : String
  policyId : String
  policyVersion : ℤ
  validFrom : ℤ
  validTo : Option ℤ
  assignmentStatus : AuthorityStatus
  assignmentVersion : ℤ
  sourceSystem : String
  sourceRecordId : String
  sourceRevision : String
  observedAt : ℤ
  assignmentReason : String
  tenantId_nonblank : strip tenantId ≠ ""
  legalBookId_nonblank : strip legalBookId ≠ ""
  securityId_nonblank : strip securityId ≠ ""
  others_nonblank : ∀ text ∈ [policyId, sourceSystem, sourceRecordId, sourceRevision,
    assignmentReason], strip text ≠ ""
  policyVersion_pos : 1 ≤ policyVersion
  assignmentVersion_pos : 1 ≤ assignmentVersion
  window : ∀ lastDay ∈ validTo, validFrom ≤ lastDay
  deriving DecidableEq

/-- The scope of a record, stripped. -/
def InstrumentValuationPolicyAssignment.authorityScope (a : InstrumentValuationPolicyAssignment) :
    ValuationAuthorityScope where
  tenantId := ⟨strip a.tenantId, strip_strip _, a.tenantId_nonblank⟩
  legalBookId := ⟨strip a.legalBookId, strip_strip _, a.legalBookId_nonblank⟩
  securityId := ⟨strip a.securityId, strip_strip _, a.securityId_nonblank⟩

/-- How the checks read an assignment of an instrument. -/
def valuationAssignments :
    RecordView InstrumentValuationPolicyAssignment ValuationAuthorityScope where
  scope := (·.authorityScope)
  sourceSystem a := strip a.sourceSystem
  sourceRecordId a := strip a.sourceRecordId
  version := (·.assignmentVersion)
  validFrom := (·.validFrom)
  validTo := (·.validTo)
  active a := a.assignmentStatus = .active
  window := (·.window)

/-- The identity of a cached resolution, without the content hash. -/
structure ValuationPolicyAssignmentCacheKey where
  tenantId : String
  legalBookId : String
  securityId : String
  valuationDate : ℤ
  policyId : String
  policyVersion : ℤ
  assignmentVersion : ℤ
  sourceRevision : String
  deriving DecidableEq

/-- The assignment in force, with the key it is cached under. -/
structure ResolvedValuationPolicyAssignment where
  assignment : InstrumentValuationPolicyAssignment
  cacheKey : ValuationPolicyAssignmentCacheKey
  deriving DecidableEq

/-- The errors of a resolution for an instrument. -/
def valuationAssignmentRefusals : Refusals AssignmentError where
  conflicting := conflictingAssignments
  missing := .missing ("no active valuation-policy assignment for exact tenant, legal book, "
    ++ "instrument, and date")
  overlapping := .overlapping "overlapping active valuation-policy assignments: "

/-- The one assignment in force for an instrument on a day. -/
def resolveValuationPolicyAssignment (assignments : List InstrumentValuationPolicyAssignment)
    (tenantId legalBookId securityId : String) (valuationDate : ℤ) :
    Except AssignmentError ResolvedValuationPolicyAssignment := do
  let requestedScope ← valuationAuthorityScope tenantId legalBookId securityId
  let assignment ← valuationAssignments.resolve valuationAssignmentRefusals assignments
    requestedScope valuationDate
  return {
    assignment
    cacheKey := {
      tenantId := strip assignment.tenantId
      legalBookId := strip assignment.legalBookId
      securityId := strip assignment.securityId
      valuationDate
      policyId := strip assignment.policyId
      policyVersion := assignment.policyVersion
      assignmentVersion := assignment.assignmentVersion
      sourceRevision := strip assignment.sourceRevision } }

/-- Active windows of one instrument do not overlap; ties are sorted by the texts as stored. -/
def validateNoOverlappingActiveAssignments
    (assignments : List InstrumentValuationPolicyAssignment) : Except AssignmentError Unit :=
  valuationAssignments.validate conflictingAssignments
    (fun scope => .overlapping ("active valuation-policy assignment windows overlap for "
      ++ "tenant=" ++ scope.tenantId.value ++ ", legal_book=" ++ scope.legalBookId.value
      ++ ", security=" ++ scope.securityId.value) [])
    (fun a => (a.sourceSystem, a.sourceRecordId)) assignments

/-! ## Overlaps -/

variable {e : AssignmentError}

theorem resolveAmortizedCostAssignment_eq_error
    {assignments : List LotAmortizedCostPolicyAssignment}
    {scope : LotBookCostAuthorityScope} {date : ℤ} :
    resolveAmortizedCostAssignment assignments scope date = .error e ↔
      lotAssignments.resolve lotAssignmentRefusals assignments scope date = .error e :=
  except_bind_pure_eq_error

theorem valuationAuthorityScope_value (scope : ValuationAuthorityScope) :
    valuationAuthorityScope scope.tenantId.value scope.legalBookId.value scope.securityId.value =
      .ok scope := by
  simp only [valuationAuthorityScope, normalizedText_value]
  rfl

theorem normalizedText_error_kind {fieldName raw : String}
    (h : normalizedText fieldName raw = .error e) : e.kind = .valueError := by
  unfold normalizedText at h
  split at h
  · cases h
    rfl
  · cases h

theorem valuationAuthorityScope_error_kind {tenantId legalBookId securityId : String}
    (h : valuationAuthorityScope tenantId legalBookId securityId = .error e) :
    e.kind = .valueError := by
  unfold valuationAuthorityScope at h
  cases htenant : normalizedText "tenant_id" tenantId with
  | error e' =>
    rw [htenant] at h
    cases h
    exact normalizedText_error_kind htenant
  | ok t =>
    cases hbook : normalizedText "legal_book_id" legalBookId with
    | error e' =>
      rw [htenant, hbook] at h
      cases h
      exact normalizedText_error_kind hbook
    | ok b =>
      rw [htenant, hbook] at h
      exact normalizedText_error_kind (except_bind_pure_eq_error.mp h)

/-- The requests that name no scope meet no overlap, and every scope is asked for by some
request. -/
theorem resolveValuationPolicyAssignment_overlap
    {assignments : List InstrumentValuationPolicyAssignment} :
    (∀ tenantId legalBookId securityId date e,
        resolveValuationPolicyAssignment assignments tenantId legalBookId securityId date = .error e
          → e.kind ≠ .overlapping) ↔
      ∀ scope date e,
        valuationAssignments.resolve valuationAssignmentRefusals assignments scope date = .error e →
          e.kind ≠ .overlapping := by
  constructor
  · intro h scope date e he
    refine h scope.tenantId.value scope.legalBookId.value scope.securityId.value date e ?_
    rw [resolveValuationPolicyAssignment, valuationAuthorityScope_value]
    exact except_bind_pure_eq_error.mpr he
  · intro h tenantId legalBookId securityId date e he
    rw [resolveValuationPolicyAssignment] at he
    cases hscope : valuationAuthorityScope tenantId legalBookId securityId with
    | error e' =>
      rw [hscope] at he
      cases he
      rw [valuationAuthorityScope_error_kind hscope]
      decide
    | ok scope =>
      rw [hscope] at he
      exact h scope date e (except_bind_pure_eq_error.mp he)

/-- Overlap validation and resolution of one family, from the errors it raises. -/
theorem validate_exact {α σ : Type} [DecidableEq α] [DecidableEq σ] {view : RecordView α σ}
    (refusals : Refusals AssignmentError) (overlap : σ → AssignmentError)
    (texts : α → String × String) (hmissing : refusals.missing.kind ≠ .overlapping)
    (hoverlapping : ∀ s, (refusals.overlapping s).kind = .overlapping) {records : List α}
    (hnone : ¬ Conflicts view.sourceRecordKey view.version records) :
    view.validate refusals.conflicting overlap texts records = .ok () ↔
      ∀ scope date e, view.resolve refusals records scope date = .error e →
        e.kind ≠ .overlapping := by
  have hresolve :=
    unambiguous_iff_resolve refusals (·.kind = .overlapping) hmissing hoverlapping hnone
  rcases validate_spec refusals.conflicting overlap texts hnone with ⟨hok, hun⟩ | ⟨s, herror, hamb⟩
  · exact iff_of_true hok (hresolve.mp hun)
  · refine iff_of_false (fun hok => ?_) fun h => hamb (hresolve.mpr h)
    rw [herror] at hok
    cases hok

/-- **Overlap validation is exact.** For a list without conflicting versions, each of the two
validations accepts exactly when resolving meets no overlap for any scope and date. Another order of
the list changes at most the scope that a refusal names. -/
theorem overlap_validation_exact :
    (∀ assignments : List LotAmortizedCostPolicyAssignment,
      ¬ Conflicts lotAssignments.sourceRecordKey lotAssignments.version assignments →
        (validateNoOverlappingActiveAmortizedCostAssignments assignments = .ok () ↔
          ∀ scope date e, resolveAmortizedCostAssignment assignments scope date = .error e →
            e.kind ≠ .overlapping) ∧
        ∀ assignments', assignments.Perm assignments' →
          (validateNoOverlappingActiveAmortizedCostAssignments assignments').mapError (·.kind) =
            (validateNoOverlappingActiveAmortizedCostAssignments assignments).mapError (·.kind)) ∧
    ∀ assignments : List InstrumentValuationPolicyAssignment,
      ¬ Conflicts valuationAssignments.sourceRecordKey valuationAssignments.version assignments →
        (validateNoOverlappingActiveAssignments assignments = .ok () ↔
          ∀ tenantId legalBookId securityId date e,
            resolveValuationPolicyAssignment assignments tenantId legalBookId securityId date =
              .error e → e.kind ≠ .overlapping) ∧
        ∀ assignments', assignments.Perm assignments' →
          (validateNoOverlappingActiveAssignments assignments').mapError (·.kind) =
            (validateNoOverlappingActiveAssignments assignments).mapError (·.kind) := by
  refine ⟨fun assignments hnone => ⟨?_, fun _ h => validate_perm (fun _ _ => rfl) h⟩,
    fun assignments hnone => ⟨?_, fun _ h => validate_perm (fun _ _ => rfl) h⟩⟩
  · simp only [resolveAmortizedCostAssignment_eq_error]
    exact validate_exact lotAssignmentRefusals _ _ (by decide) (fun _ => rfl) hnone
  · rw [resolveValuationPolicyAssignment_overlap]
    exact validate_exact valuationAssignmentRefusals _ _ (by decide) (fun _ => rfl) hnone

/-- A lot of a bond. -/
def sampleLot : LotBookCostAuthorityScope where
  tenantId := ⟨"tenant-1", by decide +kernel, by decide⟩
  legalBookId := ⟨"book-1", by decide +kernel, by decide⟩
  portfolioId := ⟨"portfolio-1", by decide +kernel, by decide⟩
  securityId := ⟨"bond-1", by decide +kernel, by decide⟩
  lotId := ⟨"lot-1", by decide +kernel, by decide⟩

/-- An open window from day 10 on. -/
def sampleLotAssignment : LotAmortizedCostPolicyAssignment where
  scope := sampleLot
  policyId := ⟨"straight-line", by decide +kernel, by decide⟩
  policyVersion := 1
  validFrom := 10
  validTo := none
  assignmentStatus := .active
  assignmentVersion := 1
  sourceSystem := ⟨"ledger", by decide +kernel, by decide⟩
  sourceRecordId := ⟨"record-1", by decide +kernel, by decide⟩
  sourceRevision := ⟨"r1", by decide +kernel, by decide⟩
  observedAt := 0
  assignmentReason := ⟨"onboarding", by decide +kernel, by decide⟩
  policyVersion_pos := by decide
  assignmentVersion_pos := by decide
  window := by simp

/-- The open window, its correction that ends on day 19, and a second record from day 20 on. -/
def abuttingLotAssignments : List LotAmortizedCostPolicyAssignment :=
  [sampleLotAssignment,
   { sampleLotAssignment with
      validTo := some 19, assignmentVersion := 2, assignmentVersion_pos := by decide,
      window := by simp [sampleLotAssignment] },
   { sampleLotAssignment with
      validFrom := 20, sourceRecordId := ⟨"record-2", by decide +kernel, by decide⟩,
      window := by simp [sampleLotAssignment] }]

/-- An open window from day 10 on, its security with a leading blank. -/
def sampleValuationAssignment : InstrumentValuationPolicyAssignment where
  tenantId := "tenant-1"
  legalBookId := "book-1"
  securityId := " bond-1"
  policyId := "fair-value"
  policyVersion := 1
  validFrom := 10
  validTo := none
  assignmentStatus := .active
  assignmentVersion := 1
  sourceSystem := "ledger"
  sourceRecordId := "record-1"
  sourceRevision := "r1"
  observedAt := 0
  assignmentReason := "onboarding"
  tenantId_nonblank := by decide +kernel
  legalBookId_nonblank := by decide +kernel
  securityId_nonblank := by decide +kernel
  others_nonblank := by decide +kernel
  policyVersion_pos := by decide
  assignmentVersion_pos := by decide
  window := by simp

/-- The open window, its correction that ends on day 19, and a second record from day 20 on. -/
def abuttingValuationAssignments : List InstrumentValuationPolicyAssignment :=
  [sampleValuationAssignment,
   { sampleValuationAssignment with
      validTo := some 19, assignmentVersion := 2, assignmentVersion_pos := by decide,
      window := by simp [sampleValuationAssignment] },
   { sampleValuationAssignment with
      validFrom := 20, sourceRecordId := "record-2", others_nonblank := by decide +kernel,
      window := by simp [sampleValuationAssignment] }]

theorem overlap_validation_exact_abutting :
    (∀ scope date e, resolveAmortizedCostAssignment abuttingLotAssignments scope date = .error e →
        e.kind ≠ .overlapping) ∧
      ∀ tenantId legalBookId securityId date e,
        resolveValuationPolicyAssignment abuttingValuationAssignments tenantId legalBookId
          securityId date = .error e → e.kind ≠ .overlapping :=
  ⟨(overlap_validation_exact.1 abuttingLotAssignments (by unfold Conflicts; decide +kernel)).1.mp
      (by decide +kernel),
    (overlap_validation_exact.2 abuttingValuationAssignments
      (by unfold Conflicts; decide +kernel)).1.mp (by decide +kernel)⟩

end LotusCore.Authority
