import LotusCore.CorporateAction.EventGraph
import LotusCore.Transaction.Lineage

/-!
# Readiness of manifests

The manifest of a corporate action declares the children it expects. It is ready once it is
complete, its children form a valid graph of a supported cohort, and exactly they were observed.

* `cohortPolicies`, `corporateActionCohortPolicy`: one source, targets and overlays.
* `semanticFindings`: what a cohort's children must be and depend on.
* `evaluateManifestReadiness`: the evaluation.
-/

namespace LotusCore

open Table

/-- `CorporateActionManifestReadinessStatus`. -/
inductive ManifestReadinessStatus
  | awaitingManifest
  | awaitingCompletion
  | awaitingChildren
  | invalid
  | ready
  deriving DecidableEq, Repr

/-- `CorporateActionManifestReason`. -/
inductive ManifestReason
  | manifestRequired
  | completionNotDeclared
  | invalidGraph
  | invalidRoleForTransactionType
  | unsupportedCorporateActionType
  | childTypeNotAllowed
  | sourceChildRequired
  | sourceChildCardinality
  | targetChildRequired
  | sourceInstrumentRequired
  | sourceChildInstrumentMismatch
  | targetInstrumentRequired
  | targetChildInstrumentMismatch
  | targetInstrumentEqualsSource
  | targetSourceDependencyRequired
  | targetSourceInstrumentMismatch
  | nonPositionDependencyRequired
  | missingExpectedChild
  | unexpectedChild
  | observedChildMismatch
  deriving DecidableEq, Repr

/-! ## Cohorts -/

/-- `CorporateActionCohortPolicy`. -/
structure CohortPolicy where
  corporateActionType : String
  sourceTransactionType : TransactionType
  sourceRole : ChildRole
  targetTransactionType : TransactionType
  deriving DecidableEq, Repr

/-- `CORPORATE_ACTION_OVERLAY_TRANSACTION_TYPES`. -/
def overlayTransactionTypes : List TransactionType :=
  [.cashConsideration, .cashInLieu, .adjustment, .fee, .tax]

def CohortPolicy.allowedTransactionTypes (policy : CohortPolicy) : List TransactionType :=
  policy.sourceTransactionType :: policy.targetTransactionType :: overlayTransactionTypes

/-- `CORPORATE_ACTION_COHORT_POLICIES`. -/
def cohortPolicies : List CohortPolicy :=
  [⟨"SPIN_OFF", .spinOff, .sourcePositionReduce, .spinIn⟩,
    ⟨"DEMERGER", .demergerOut, .sourcePositionReduce, .demergerIn⟩,
    ⟨"MERGER", .mergerOut, .sourcePositionClose, .mergerIn⟩,
    ⟨"MANDATORY_EXCHANGE", .exchangeOut, .sourcePositionClose, .exchangeIn⟩,
    ⟨"SECURITY_REPLACEMENT", .replacementOut, .sourcePositionClose, .replacementIn⟩]

def corporateActionCohortPolicy (corporateActionType : String) : Option CohortPolicy :=
  row? (·.corporateActionType) cohortPolicies (upper (strip corporateActionType))

/-- `_SOURCE_ROLE_BY_TYPE`, of which only the types are read. -/
def isSourceType : TransactionType → Bool
  | .spinOff | .demergerOut | .mergerOut | .exchangeOut | .replacementOut => true
  | _ => false

/-- `_TARGET_SOURCE_TYPE`. -/
def targetSourceType : TransactionType → Option TransactionType
  | .spinIn => some .spinOff
  | .demergerIn => some .demergerOut
  | .mergerIn => some .mergerOut
  | .exchangeIn => some .exchangeOut
  | .replacementIn => some .replacementOut
  | _ => none

/-- `_ROLE_BY_NON_POSITION_TYPE`. -/
def nonPositionRole : TransactionType → Option ChildRole
  | .cashConsideration => some .cashConsideration
  | .cashInLieu => some .cashInLieu
  | .adjustment => some .cashSettlement
  | .fee => some .charge
  | .tax => some .tax
  | _ => none

/-- The types that settle a consideration. -/
def isConsiderationType : TransactionType → Bool
  | .cashConsideration | .cashInLieu => true
  | _ => false

/-! ## Manifests -/

/-- `CorporateActionParentManifest`. -/
structure ParentManifest where
  corporateActionEventId : String
  tenantId : String
  legalBookId : String
  portfolioId : String
  linkedTransactionGroupId : String
  parentEventReference : String
  corporateActionType : String
  version : ℕ
  completionDeclared : Bool
  expectedChildren : List EventChild
  sourceReference : FinancialSourceReference
  deriving DecidableEq, Repr

/-- `CorporateActionParentManifest.lineage_payload`: the children by id, in canonical form. -/
def ParentManifest.lineagePayload (manifest : ParentManifest) : ParentManifest :=
  { manifest with
    expectedChildren := (manifest.expectedChildren.insertionSort
      fun a b => a.transactionId ≤ b.transactionId).map EventChild.lineagePayload }

/-- `CorporateActionManifestFinding`. -/
structure ManifestFinding where
  reason : ManifestReason
  transactionIds : List String := []
  graphFindings : List EventGraphFinding := []
  deriving DecidableEq, Repr

/-- `CorporateActionManifestReadiness`. -/
structure ManifestReadiness where
  status : ManifestReadinessStatus
  orderedChildren : List EventChild
  findings : List ManifestFinding
  manifestContentHash : Option String
  deriving DecidableEq, Repr

/-! ## What a cohort's children must be -/

/-- `_finding`. -/
def childFinding (reason : ManifestReason) (child : EventChild) : ManifestFinding :=
  ⟨reason, [child.transactionId], []⟩

def childrenOfType (type : TransactionType) (children : List EventChild) : List EventChild :=
  children.filter fun child => child.transactionType = type

/-- `_cohort_shape_findings`: only allowed types, one source and at least one target. -/
def cohortShapeFindings (children : List EventChild) (policy : CohortPolicy) :
    List ManifestFinding :=
  let disallowed := (children.filter fun child =>
    child.transactionType ∉ policy.allowedTransactionTypes).map (·.transactionId)
  let sources := childrenOfType policy.sourceTransactionType children
  let targets := childrenOfType policy.targetTransactionType children
  (if disallowed = [] then []
    else [⟨.childTypeNotAllowed, disallowed.insertionSort (· ≤ ·), []⟩]) ++
  (if sources = [] then [⟨.sourceChildRequired, [], []⟩]
    else if sources.length ≠ 1 then
      [⟨.sourceChildCardinality, (sources.map (·.transactionId)).insertionSort (· ≤ ·), []⟩]
    else []) ++
  (if targets = [] then [⟨.targetChildRequired, [], []⟩] else [])

variable (child : EventChild)

def sourceChildFindings (policy : CohortPolicy) : List ManifestFinding :=
  (if child.childRole ≠ policy.sourceRole then
    [childFinding .invalidRoleForTransactionType child] else []) ++
  (if child.sourceInstrumentId = none then
    [childFinding .sourceInstrumentRequired child] else []) ++
  (if child.instrumentId = none then [childFinding .sourceInstrumentRequired child]
    else if child.sourceInstrumentId ≠ none ∧ child.instrumentId ≠ child.sourceInstrumentId then
      [childFinding .sourceChildInstrumentMismatch child]
    else [])

def compatibleSources (sourceType : TransactionType) (children : List EventChild)
    : List EventChild :=
  (child.dependencyTransactionIds.filterMap (childById children)).filter
    fun source => source.transactionType = sourceType

def targetChildFindings (sourceType : TransactionType) (children : List EventChild)
    : List ManifestFinding :=
  (if child.childRole ≠ .targetPositionAdd then
    [childFinding .invalidRoleForTransactionType child] else []) ++
  (if child.sourceInstrumentId = none then
    [childFinding .sourceInstrumentRequired child] else []) ++
  (if child.targetInstrumentId = none then [childFinding .targetInstrumentRequired child]
    else if child.targetInstrumentId = child.sourceInstrumentId then
      [childFinding .targetInstrumentEqualsSource child]
    else []) ++
  (if child.instrumentId = none then [childFinding .targetInstrumentRequired child]
    else if child.targetInstrumentId ≠ none ∧ child.instrumentId ≠ child.targetInstrumentId then
      [childFinding .targetChildInstrumentMismatch child]
    else []) ++
  match compatibleSources child sourceType children with
  | [source] =>
    if child.sourceInstrumentId ≠ source.instrumentId then
      [childFinding .targetSourceInstrumentMismatch child] else []
  | _ => [childFinding .targetSourceDependencyRequired child]

def hasGovernedNonPositionDependencies (targets considerations :
    List EventChild) : Bool :=
  let dependencies := child.dependencyTransactionIds
  match child.transactionType with
  | .cashConsideration => targets.all fun target => target.transactionId ∈ dependencies
  | .cashInLieu => targets.any fun target =>
      target.instrumentId = child.instrumentId ∧ target.transactionId ∈ dependencies
  | .adjustment => dependencies.dedup.length = 1 ∧
      dependencies ⊆ considerations.map (·.transactionId)
  | _ => (targets ++ considerations) ≠ [] ∧
      (targets ++ considerations).all fun terminal => terminal.transactionId ∈ dependencies

def nonPositionChildFindings (targets considerations : List EventChild) : List ManifestFinding :=
  if nonPositionRole child.transactionType ≠ some child.childRole then
    [childFinding .invalidRoleForTransactionType child]
  else if hasGovernedNonPositionDependencies child targets considerations then []
  else [childFinding .nonPositionDependencyRequired child]

def childSemanticFindings (children : List EventChild) (policy : CohortPolicy)
    (child : EventChild) : List ManifestFinding :=
  if isSourceType child.transactionType then sourceChildFindings child policy
  else
    match targetSourceType child.transactionType with
    | some sourceType => targetChildFindings child sourceType children
    | none =>
      nonPositionChildFindings child (childrenOfType policy.targetTransactionType children)
        (children.filter fun c => isConsiderationType c.transactionType)

def semanticFindings (manifest : ParentManifest) : List ManifestFinding :=
  let children := manifest.expectedChildren
  match corporateActionCohortPolicy manifest.corporateActionType with
  | none => [⟨.unsupportedCorporateActionType, [], []⟩]
  | some policy =>
    cohortShapeFindings children policy ++
      (children.insertionSort fun a b => a.transactionId ≤ b.transactionId).flatMap
        (childSemanticFindings children policy)

/-! ## Observations -/

def repeatedChildFinding (existing child : EventChild) : EventGraphFinding where
  reason :=
    if existing.lineagePayload = child.lineagePayload then .duplicateChildId
    else .conflictingChildDefinition
  transactionIds := [child.transactionId]

def observedIdentityFindings (observed : List EventChild) : List ManifestFinding :=
  let graphFindings := ((repeats (·.transactionId) observed).map
    fun p => repeatedChildFinding p.1 p.2).insertionSort fun a b =>
      toLex (a.reason.value, toLex (a.transactionIds, a.dependencyTransactionIds)) ≤
        toLex (b.reason.value, toLex (b.transactionIds, b.dependencyTransactionIds))
  if graphFindings = [] then []
  else
    [⟨.invalidGraph, (graphFindings.flatMap (·.transactionIds)).insertionSort (· ≤ ·),
      graphFindings⟩]

def idsOnlyIn (children others : List EventChild) : List String :=
  sortedIds ((children.map (·.transactionId)).filter fun id =>
    id ∉ others.map (·.transactionId))

def mismatchedIds (expected observed : List EventChild) : List String :=
  sortedIds ((expected.map (·.transactionId)).filter fun id =>
    id ∈ observed.map (·.transactionId) ∧
      (childById expected id).map EventChild.lineagePayload ≠
        (childById observed id).map EventChild.lineagePayload)

/-! ## The evaluation -/

section Evaluation

-- the digests of a child's and of a manifest's canonical form
variable (definitionDigest : EventChild → String) (contentDigest : ParentManifest → String)
  (manifest : ParentManifest)

def ParentManifest.contentHash : String :=
  contentDigest manifest.lineagePayload

/-- `_readiness`. -/
def notReady (status : ManifestReadinessStatus) (findings : List ManifestFinding)
    (manifest : Option ParentManifest) : ManifestReadiness where
  status := status
  orderedChildren := []
  findings := findings
  manifestContentHash := manifest.map (ParentManifest.contentHash contentDigest)

def manifestFindings : List ManifestFinding :=
  let plan := resolveEventGraph definitionDigest manifest.expectedChildren
  (if plan.valid then [] else [⟨.invalidGraph, [], plan.findings⟩]) ++ semanticFindings manifest

/-- The comparison of the expected children with the observed ones. -/
def observedReadiness (observed : List EventChild) : ManifestReadiness :=
  let missing := idsOnlyIn manifest.expectedChildren observed
  let unexpected := idsOnlyIn observed manifest.expectedChildren
  let mismatched := mismatchedIds manifest.expectedChildren observed
  if unexpected ≠ [] ∨ mismatched ≠ [] then
    notReady contentDigest .invalid
      ((if unexpected ≠ [] then [⟨.unexpectedChild, unexpected, []⟩] else []) ++
        if mismatched ≠ [] then [⟨.observedChildMismatch, mismatched, []⟩] else [])
      (some manifest)
  else if missing ≠ [] then
    notReady contentDigest .awaitingChildren [⟨.missingExpectedChild, missing, []⟩] (some manifest)
  else
    { status := .ready
      orderedChildren :=
        (resolveEventGraph definitionDigest manifest.expectedChildren).orderedChildren
      findings := []
      manifestContentHash := some (manifest.contentHash contentDigest) }

/-- `evaluate_corporate_action_manifest_readiness`. -/
def evaluateManifestReadiness (manifest : Option ParentManifest) (observed : List EventChild) :
    ManifestReadiness :=
  match manifest with
  | none => notReady contentDigest .awaitingManifest [⟨.manifestRequired, [], []⟩] none
  | some manifest =>
    if manifest.completionDeclared = false then
      notReady contentDigest .awaitingCompletion [⟨.completionNotDeclared, [], []⟩]
        (some manifest)
    else if manifestFindings definitionDigest manifest ≠ [] then
      notReady contentDigest .invalid (manifestFindings definitionDigest manifest) (some manifest)
    else if observedIdentityFindings observed ≠ [] then
      notReady contentDigest .invalid (observedIdentityFindings observed) (some manifest)
    else observedReadiness definitionDigest contentDigest manifest observed

end Evaluation

end LotusCore
