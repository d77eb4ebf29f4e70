import LotusCore.Data.Tiling
import Mathlib.Data.Finset.Dedup

/-!
# Classification history

A retained cut assigns securities to groups on half-open intervals of days. A selection asks for the
assignments of a period and is told which of its securities are not assigned throughout.

* `missingAssignmentCoverage`: the sweep over the assignments of each security.
* `selectedClassificationHistory`: the evidence for a selection.
* **`missing_assignment_coverage_exact`**: a security is omitted exactly when its assignments hold
  every day of the period.
* **`selectedClassificationHistory_complete_iff`**: what a complete answer stands for.
-/

namespace LotusCore.Reference

open Tiling

/-! ## Coverage -/

/-- `HistoricalClassificationAssignment`; the end is exclusive. -/
structure Assignment where
  securityId : String
  groupId : String
  effectiveFrom : ℤ
  effectiveTo : ℤ
  deriving DecidableEq

variable (rows : List Assignment)

def selectedAssignments (security : String) : List Assignment :=
  (rows.filter (·.securityId = security)).insertionSort (·.effectiveFrom ≤ ·.effectiveFrom)

def coverageCursor (security : String) (start stop : ℤ) : ℤ :=
  sweep Assignment.effectiveFrom Assignment.effectiveTo stop
    (selectedAssignments rows security) start

def missingAssignmentCoverage (securities : List String) (start stop : ℤ) : List String :=
  securities.filter fun security => coverageCursor rows security start stop < stop

/-- The assignments hold every day from `start` to the day before `stop`. -/
def Covered (security : String) (start stop : ℤ) : Prop :=
  ∀ day, start ≤ day → day < stop →
    ∃ row ∈ rows, row.securityId = security ∧ row.effectiveFrom ≤ day ∧ day < row.effectiveTo

section Coverage

variable {rows : List Assignment} {securities : List String} {security : String} {start stop : ℤ}

theorem le_coverageCursor_iff :
    stop ≤ coverageCursor rows security start stop ↔ Covered rows security start stop := by
  have hsorted : (selectedAssignments rows security).Pairwise
      fun a b => a.effectiveFrom ≤ b.effectiveFrom :=
    List.pairwise_insertionSort _ _
  rw [coverageCursor, le_sweep_iff hsorted]
  refine forall_congr' fun day => forall_congr' fun _ => forall_congr' fun _ => ?_
  simp only [selectedAssignments, List.mem_insertionSort, List.mem_filter, decide_eq_true_eq,
    Covers, and_assoc]

theorem mem_missingAssignmentCoverage :
    security ∈ missingAssignmentCoverage rows securities start stop ↔
      security ∈ securities ∧ ¬ Covered rows security start stop := by
  rw [missingAssignmentCoverage, List.mem_filter, decide_eq_true_eq, ← not_le,
    le_coverageCursor_iff]

/-- **The coverage check is exact.** -/
theorem missing_assignment_coverage_exact (rows : List Assignment) (securities : List String)
    (start stop : ℤ) {security : String} (hsecurity : security ∈ securities) :
    security ∉ missingAssignmentCoverage rows securities start stop ↔
      ∀ day, start ≤ day → day < stop →
        ∃ row ∈ rows, row.securityId = security ∧ row.effectiveFrom ≤ day ∧
          day < row.effectiveTo := by
  rw [mem_missingAssignmentCoverage]
  constructor
  · intro h
    by_contra hgap
    exact h ⟨hsecurity, hgap⟩
  · rintro hcovered ⟨-, hgap⟩
    exact hgap hcovered

def overlappingAssignments : List Assignment :=
  [⟨"A", "TECH", 5, 9⟩, ⟨"A", "BANK", 3, 3⟩, ⟨"A", "TECH", 0, 6⟩, ⟨"A", "TECH", 0, 6⟩,
    ⟨"B", "TECH", 0, 4⟩, ⟨"B", "BANK", 5, 9⟩]

theorem missing_assignment_coverage_exact_overlapping :
    "A" ∈ ["A", "B"] ∧ "B" ∈ ["A", "B"] ∧ Covered overlappingAssignments "A" 0 9 ∧
      ¬ Covered overlappingAssignments "B" 0 9 := by
  have hA : "A" ∈ ["A", "B"] := by decide
  have hB : "B" ∈ ["A", "B"] := by decide
  refine ⟨hA, hB, ?_, fun hcovered => ?_⟩
  · exact (missing_assignment_coverage_exact overlappingAssignments ["A", "B"] 0 9 hA).mp
      (by decide +kernel)
  · exact (missing_assignment_coverage_exact overlappingAssignments ["A", "B"] 0 9 hB).mpr hcovered
      (by decide +kernel)

end Coverage

/-! ## Selections -/

/-- `InstrumentClassificationCut`, as far as a selection reads it. -/
structure ClassificationCut where
  producerId : String
  classificationSetId : String
  sourceRecordId : String
  sourceVersion : ℕ
  coverageFrom : ℤ
  coverageTo : ℤ
  observedAt : ℤ
  expectedSecurityIds : List String
  expectedGroupIds : List String
  assignments : List Assignment

/-- `RetainedClassificationCut`. -/
structure RetainedCut where
  cutId : String
  contentHash : String
  receivedAt : ℤ
  source : ClassificationCut

/-- `ClassificationHistorySelection`; the end of the period is inclusive. -/
structure Selection where
  producerId : String
  classificationSetId : String
  sourceRecordId : String
  sourceVersion : ℕ
  cutId : String
  contentHash : String
  periodStart : ℤ
  periodEnd : ℤ
  sourceAsOf : ℤ
  knownAt : ℤ
  expectedSecurityIds : List String
  expectedGroupIds : List String

variable (selection : Selection)

def Selection.stop : ℤ := selection.periodEnd + 1

inductive HistoryStatus
  | complete
  | incomplete
  | unavailable
  deriving DecidableEq

/-- `ClassificationHistoryEvidence`, without the echo of the request. -/
structure HistoryEvidence where
  status : HistoryStatus
  assignments : List Assignment
  missingSecurityIds : List String
  reasonCodes : List String

def Selection.Names (retained : RetainedCut) : Prop :=
  retained.cutId = selection.cutId ∧ retained.contentHash = selection.contentHash ∧
    retained.source.producerId = selection.producerId ∧
    retained.source.classificationSetId = selection.classificationSetId ∧
    retained.source.sourceRecordId = selection.sourceRecordId ∧
    retained.source.sourceVersion = selection.sourceVersion ∧
    retained.receivedAt ≤ selection.knownAt ∧ retained.source.observedAt ≤ selection.sourceAsOf
  deriving Decidable

/-- The universes of the cut and of the selection agree as sets. -/
def Selection.SameUniverse (retained : RetainedCut) : Prop :=
  retained.source.expectedSecurityIds.toFinset = selection.expectedSecurityIds.toFinset ∧
    retained.source.expectedGroupIds.toFinset = selection.expectedGroupIds.toFinset
  deriving Decidable

/-- `_selection_refusal` for a retained cut. -/
def selectionRefusal (retained : RetainedCut) : Option String :=
  if ¬ selection.Names retained then some "CLASSIFICATION_SELECTION_UNAVAILABLE"
  else if ¬ selection.SameUniverse retained then some "CLASSIFICATION_EXPECTED_UNIVERSE_MISMATCH"
  else none

def assignmentsIn (source : ClassificationCut) : List Assignment :=
  source.assignments.filter fun row =>
    row.effectiveFrom < selection.stop ∧ selection.periodStart < row.effectiveTo

def historyReasons (source : ClassificationCut) (missing : List String) : List String :=
  (if selection.periodStart < source.coverageFrom ∨ source.coverageTo < selection.stop then
    ["CLASSIFICATION_PERIOD_NOT_COVERED"] else []) ++
  (if missing ≠ [] then ["CLASSIFICATION_ASSIGNMENT_COVERAGE_INCOMPLETE"] else [])

def selectedClassificationHistory :
    Option RetainedCut → HistoryEvidence
  | none => ⟨.unavailable, [], [], ["CLASSIFICATION_CUT_UNAVAILABLE"]⟩
  | some retained =>
    match selectionRefusal selection retained with
    | some reason => ⟨.unavailable, [], [], [reason]⟩
    | none =>
      let rows := assignmentsIn selection retained.source
      let missing := missingAssignmentCoverage rows selection.expectedSecurityIds
        selection.periodStart selection.stop
      let reasons := historyReasons selection retained.source missing
      ⟨if reasons = [] then .complete else .incomplete, rows, missing,
        if reasons = [] then ["CLASSIFICATION_DECLARED_UNIVERSE_COVERED"] else reasons⟩

section Selections

variable {selection : Selection} {retained : RetainedCut} {source : ClassificationCut}

theorem selectionRefusal_eq_none : selectionRefusal selection retained = none ↔
    selection.Names retained ∧ selection.SameUniverse retained := by
  unfold selectionRefusal
  by_cases hnames : selection.Names retained
  · by_cases hsame : selection.SameUniverse retained
    · simp [hnames, hsame]
    · simp [hnames, hsame]
  · simp [hnames]

/-- Assignments outside the period do not matter for its coverage. -/
theorem covered_assignmentsIn {security : String} :
    Covered (assignmentsIn selection source) security selection.periodStart selection.stop ↔
      Covered source.assignments security selection.periodStart selection.stop := by
  refine forall_congr' fun day => forall_congr' fun hstart => forall_congr' fun hstop => ?_
  constructor
  · rintro ⟨row, hrow, hrest⟩
    exact ⟨row, List.mem_of_mem_filter hrow, hrest⟩
  · rintro ⟨row, hrow, hsecurity, hfrom, hto⟩
    refine ⟨row, List.mem_filter.mpr ⟨hrow, ?_⟩, hsecurity, hfrom, hto⟩
    exact decide_eq_true ⟨by omega, by omega⟩

theorem missing_eq_nil {rows : List Assignment} {securities : List String} {start stop : ℤ} :
    missingAssignmentCoverage rows securities start stop = [] ↔
      ∀ security ∈ securities, Covered rows security start stop := by
  rw [List.eq_nil_iff_forall_not_mem]
  refine forall_congr' fun security => ?_
  rw [mem_missingAssignmentCoverage, not_and, not_not]

theorem historyReasons_eq_nil {missing : List String} :
    historyReasons selection source missing = [] ↔
      (source.coverageFrom ≤ selection.periodStart ∧ selection.stop ≤ source.coverageTo) ∧
        missing = [] := by
  unfold historyReasons
  rw [List.append_eq_nil_iff]
  refine and_congr ?_ ?_
  · rw [← not_lt, ← not_lt, ← not_or]
    split_ifs with h
    · simp [h]
    · simp [h]
  · split_ifs with h
    · simpa using h
    · simpa using h

/-- **A complete answer.** The retained cut is the one the selection names, declares the period, and
assigns every expected security on every day of it. -/
theorem selectedClassificationHistory_complete_iff :
    (selectedClassificationHistory selection (some retained)).status = .complete ↔
      (selection.Names retained ∧ selection.SameUniverse retained) ∧
        (retained.source.coverageFrom ≤ selection.periodStart ∧
          selection.stop ≤ retained.source.coverageTo) ∧
        ∀ security ∈ selection.expectedSecurityIds,
          Covered retained.source.assignments security selection.periodStart selection.stop := by
  rw [← selectionRefusal_eq_none, selectedClassificationHistory]
  cases hrefusal : selectionRefusal selection retained with
  | some reason => simp
  | none =>
    simp only [true_and]
    rw [← forall₂_congr fun security _ => covered_assignmentsIn, ← missing_eq_nil,
      ← historyReasons_eq_nil]
    split_ifs with h
    · exact ⟨fun _ => h, fun _ => rfl⟩
    · exact ⟨False.elim, fun hnil => absurd hnil h⟩

end Selections

end LotusCore.Reference
