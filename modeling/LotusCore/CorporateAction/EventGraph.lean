import LotusCore.Data.Components
import LotusCore.Data.Table
import LotusCore.Data.Topological
import LotusCore.Transaction.Types
import Mathlib.Data.Prod.Lex

/-!
# Event graphs

The children of a corporate action declare the children they depend on. The declarations are
checked as a directed graph; a graph without defects has a canonical order, any other has findings
and no order.

* `resolveDirectedEventGraph`: the order or the findings of a graph.
* `cyclicComponents`: the cycles that are reported.
* `EventChild`, `resolveEventGraph`: the children of a corporate action as a graph.
* `resolveDirectedEventGraph_valid_iff`: which graphs are valid.
* `resolveEventGraph_ordered`: the order of a valid graph lists every child after its dependencies.
-/

namespace LotusCore

open Components Table Topological List

/-! ## Graphs -/

inductive DirectedEventGraphReason
  | emptyGraph
  | duplicateNodeId
  | conflictingNodeDefinition
  | duplicateEdge
  | selfDependency
  | missingDependency
  | dependencyCycle
  | blockedByCycle
  deriving DecidableEq, Repr

/-- The text of a reason, by which findings are sorted. -/
def DirectedEventGraphReason.value : DirectedEventGraphReason → String
  | .emptyGraph => "EVENT_GRAPH_EMPTY"
  | .duplicateNodeId => "EVENT_GRAPH_DUPLICATE_NODE_ID"
  | .conflictingNodeDefinition => "EVENT_GRAPH_CONFLICTING_NODE_DEFINITION"
  | .duplicateEdge => "EVENT_GRAPH_DUPLICATE_EDGE"
  | .selfDependency => "EVENT_GRAPH_SELF_DEPENDENCY"
  | .missingDependency => "EVENT_GRAPH_MISSING_DEPENDENCY"
  | .dependencyCycle => "EVENT_GRAPH_DEPENDENCY_CYCLE"
  | .blockedByCycle => "EVENT_GRAPH_BLOCKED_BY_CYCLE"

structure DirectedEventNode where
  nodeId : String
  dependencyNodeIds : List String
  definitionFingerprint : String
  orderKey : List String
  deriving DecidableEq, Repr

structure DirectedEventGraphFinding where
  reason : DirectedEventGraphReason
  nodeIds : List String
  dependencyNodeIds : List String := []
  deriving DecidableEq, Repr

/-- `DirectedEventGraphPlan`; a valid plan is one without findings. -/
structure DirectedEventGraphPlan where
  valid : Bool
  orderedNodes : List DirectedEventNode
  findings : List DirectedEventGraphFinding
  declaredNodeCount : ℕ
  declaredEdgeCount : ℕ
  deriving DecidableEq, Repr

def sortedIds (ids : List String) : List String := ids.dedup.insertionSort (· ≤ ·)

/-- `_invalid`: no order, and the findings sorted by reason and ids. -/
def invalidPlan (findings : List DirectedEventGraphFinding) (nodeCount edgeCount : ℕ) :
    DirectedEventGraphPlan where
  valid := false
  orderedNodes := []
  findings := findings.insertionSort fun a b =>
    toLex (a.reason.value, toLex (a.nodeIds, a.dependencyNodeIds)) ≤
      toLex (b.reason.value, toLex (b.nodeIds, b.dependencyNodeIds))
  declaredNodeCount := nodeCount
  declaredEdgeCount := edgeCount

def repeatedNodeFinding (existing node : DirectedEventNode) : DirectedEventGraphFinding where
  reason :=
    if existing.definitionFingerprint = node.definitionFingerprint then .duplicateNodeId
    else .conflictingNodeDefinition
  nodeIds := [node.nodeId]

def dependencyFindings (ids : List String) (node : DirectedEventNode) :
    List DirectedEventGraphFinding :=
  let repeated := node.dependencyNodeIds.filter fun d => 1 < node.dependencyNodeIds.count d
  let missing := sortedIds (node.dependencyNodeIds.filter fun d => d ∉ ids)
  (if node.dependencyNodeIds.Nodup then []
    else [⟨.duplicateEdge, [node.nodeId], sortedIds repeated⟩]) ++
  (if node.nodeId ∈ node.dependencyNodeIds then
    [⟨.selfDependency, [node.nodeId], [node.nodeId]⟩] else []) ++
  (if missing = [] then [] else [⟨.missingDependency, [node.nodeId], missing⟩])

/-- The dependencies of a node that are nodes, itself apart. -/
def presentDependencies (ids : List String) (node : DirectedEventNode) : List String :=
  sortedIds (node.dependencyNodeIds.filter fun d => d ∈ ids ∧ d ≠ node.nodeId)

def dependenciesOf (nodes : List DirectedEventNode) (id : String) : List String :=
  match row? (·.nodeId) nodes id with
  | none => []
  | some node => presentDependencies (nodes.map (·.nodeId)) node

/-- The ready nodes are taken by order key, then by id. -/
def readyKey (nodes : List DirectedEventNode) (id : String) : List String ×ₗ String :=
  toLex (((row? (·.nodeId) nodes id).map (·.orderKey)).getD [], id)

/-! ### Cycles -/

/-- `_cyclic_components`. A round of either search takes a frame, a neighbour or an entry off its
stack, which bounds the rounds by the nodes and edges. -/
def cyclicComponents (unresolved : List String) (dependants dependencies : String → List String) :
    List (List String) :=
  let neighbours := fun id => sortedIds ((dependants id).filter (· ∈ unresolved))
  let predecessors := fun id => (dependencies id).filter (· ∈ unresolved)
  let order := finishOrder neighbours (unresolved.map fun id => (neighbours id).length + 1).sum
    (sortedIds unresolved)
  let components := (order.reverse.foldl (collectComponent sortedIds predecessors
    ((unresolved.map fun id => (predecessors id).length).sum + 1)) ([], [])).2
  components.insertionSort (· ≤ ·)

/-- The findings of a graph whose order stopped before its end. -/
def cycleFindings (nodes : List DirectedEventNode) (s : TopologicalState String) :
    List DirectedEventGraphFinding :=
  let ids := nodes.map (·.nodeId)
  let unresolved := ids.filter fun id => s.indegree id ≠ 0
  let components := cyclicComponents unresolved (dependantsOf ids (dependenciesOf nodes))
    (dependenciesOf nodes)
  let blocked := sortedIds (unresolved.filter fun id => id ∉ components.flatten)
  (components.map fun component => ⟨.dependencyCycle, component, []⟩) ++
    blocked.map fun id =>
      ⟨.blockedByCycle, [id], (dependenciesOf nodes id).filter (· ∈ unresolved)⟩

/-! ### Resolution -/

def resolveDistinctNodes (nodes : List DirectedEventNode) : DirectedEventGraphPlan :=
  let ids := nodes.map (·.nodeId)
  let findings := nodes.flatMap (dependencyFindings ids)
  let edgeCount := (nodes.map fun node => (presentDependencies ids node).length).sum
  if findings ≠ [] then invalidPlan findings nodes.length edgeCount
  else
    let s := finish (readyKey nodes) ids (dependenciesOf nodes)
    if s.ordered.length ≠ nodes.length then
      invalidPlan (cycleFindings nodes s) nodes.length edgeCount
    else
      { valid := true
        orderedNodes := s.ordered.filterMap (row? (·.nodeId) nodes)
        findings := []
        declaredNodeCount := nodes.length
        declaredEdgeCount := edgeCount }

def resolveDirectedEventGraph (declared : List DirectedEventNode) : DirectedEventGraphPlan :=
  let findings :=
    ((repeats (·.nodeId) declared).map fun p => repeatedNodeFinding p.1 p.2) ++
      if declared = [] then [⟨.emptyGraph, [], []⟩] else []
  if findings ≠ [] then invalidPlan findings (declared.map (·.nodeId)).dedup.length 0
  else resolveDistinctNodes declared

/-! ## Children of a corporate action -/

/-- `CorporateActionEventGraphReason`. -/
inductive EventGraphReason
  | emptyEvent
  | duplicateChildId
  | conflictingChildDefinition
  | duplicateDependencyReference
  | selfDependency
  | missingDependency
  | dependencyCycle
  | blockedByCycle
  deriving DecidableEq, Repr

/-- The text of a reason, by which findings are sorted. -/
def EventGraphReason.value : EventGraphReason → String
  | .emptyEvent => "CA_EVENT_EMPTY"
  | .duplicateChildId => "CA_EVENT_DUPLICATE_CHILD_ID"
  | .conflictingChildDefinition => "CA_EVENT_CONFLICTING_CHILD_DEFINITION"
  | .duplicateDependencyReference => "CA_EVENT_DUPLICATE_DEPENDENCY_REFERENCE"
  | .selfDependency => "CA_EVENT_SELF_DEPENDENCY"
  | .missingDependency => "CA_EVENT_MISSING_DEPENDENCY"
  | .dependencyCycle => "CA_EVENT_DEPENDENCY_CYCLE"
  | .blockedByCycle => "CA_EVENT_BLOCKED_BY_CYCLE"

/-- `_CORPORATE_ACTION_REASON_BY_GRAPH_REASON`. -/
def EventGraphReason.ofGraphReason : DirectedEventGraphReason → EventGraphReason
  | .emptyGraph => .emptyEvent
  | .duplicateNodeId => .duplicateChildId
  | .conflictingNodeDefinition => .conflictingChildDefinition
  | .duplicateEdge => .duplicateDependencyReference
  | .selfDependency => .selfDependency
  | .missingDependency => .missingDependency
  | .dependencyCycle => .dependencyCycle
  | .blockedByCycle => .blockedByCycle

/-- The roles manifests know, and any other. -/
inductive ChildRole
  | sourcePositionReduce
  | sourcePositionClose
  | targetPositionAdd
  | cashConsideration
  | cashInLieu
  | cashSettlement
  | charge
  | tax
  | other (text : String)
  deriving DecidableEq, Repr

def ChildRole.value : ChildRole → String
  | .sourcePositionReduce => "SOURCE_POSITION_REDUCE"
  | .sourcePositionClose => "SOURCE_POSITION_CLOSE"
  | .targetPositionAdd => "TARGET_POSITION_ADD"
  | .cashConsideration => "CASH_CONSIDERATION"
  | .cashInLieu => "CASH_IN_LIEU"
  | .cashSettlement => "CASH_SETTLEMENT"
  | .charge => "CHARGE"
  | .tax => "TAX"
  | .other text => text

/-- `CorporateActionEventChild`. -/
structure EventChild where
  transactionId : String
  transactionType : TransactionType
  childRole : ChildRole
  dependencyTransactionIds : List String := []
  childSequenceHint : Option ℕ := none
  instrumentId : Option String := none
  sourceInstrumentId : Option String := none
  targetInstrumentId : Option String := none
  deriving DecidableEq, Repr

/-- `CorporateActionEventChild.lineage_payload`: the canonical definition of a child. -/
def EventChild.lineagePayload (child : EventChild) : EventChild :=
  { child with
    dependencyTransactionIds := child.dependencyTransactionIds.insertionSort (· ≤ ·) }

/-- `CorporateActionEventGraphFinding`. -/
structure EventGraphFinding where
  reason : EventGraphReason
  transactionIds : List String
  dependencyTransactionIds : List String := []
  deriving DecidableEq, Repr

/-- `CorporateActionEventStructuralPlan`. -/
structure EventStructuralPlan where
  valid : Bool
  orderedChildren : List EventChild
  findings : List EventGraphFinding
  declaredNodeCount : ℕ
  declaredEdgeCount : ℕ
  deriving DecidableEq, Repr

/-- A number with leading zeros, as the format `0{width}d` writes it. -/
def zeroPadded (width n : ℕ) : String :=
  let digits := Nat.toDigits 10 n
  String.ofList (List.replicate (width - digits.length) '0' ++ digits)

/-- The order key of a child: rank, sequence, target, role and id. -/
def EventChild.orderKey (child : EventChild) : List String :=
  [zeroPadded 4 child.transactionType.dependencyRank.toNat,
    zeroPadded 10 (child.childSequenceHint.getD defaultChildSequence.toNat),
    match child.targetInstrumentId with
      | none => "-"
      | some target => if target = "" then "-" else target,
    child.childRole.value,
    child.transactionId]

section Adapter

-- the digest of a child's canonical definition
variable (definitionDigest : EventChild → String)

def EventChild.directedNode (child : EventChild) : DirectedEventNode where
  nodeId := child.transactionId
  dependencyNodeIds := child.dependencyTransactionIds
  definitionFingerprint := definitionDigest child.lineagePayload
  orderKey := child.orderKey

def childById (children : List EventChild) (id : String) : Option EventChild :=
  row? (·.transactionId) children.reverse id

/-- `resolve_corporate_action_event_graph`. -/
def resolveEventGraph (children : List EventChild) : EventStructuralPlan :=
  let plan := resolveDirectedEventGraph (children.map (EventChild.directedNode definitionDigest))
  { valid := plan.valid
    orderedChildren := plan.orderedNodes.filterMap fun node => childById children node.nodeId
    findings := plan.findings.map fun f =>
      ⟨.ofGraphReason f.reason, f.nodeIds, f.dependencyNodeIds⟩
    declaredNodeCount := plan.declaredNodeCount
    declaredEdgeCount := plan.declaredEdgeCount }

end Adapter

/-! ## Valid graphs -/

variable {ids : List String}

@[simp] theorem mem_sortedIds {id : String} : id ∈ sortedIds ids ↔ id ∈ ids := by
  simp [sortedIds]

theorem sortedIds_nodup (ids : List String) : (sortedIds ids).Nodup :=
  (perm_insertionSort _ _).nodup_iff.mpr (nodup_dedup ids)

theorem sortedIds_pairwise (ids : List String) : (sortedIds ids).Pairwise (· < ·) := by
  have hle : (sortedIds ids).Pairwise (· ≤ ·) := pairwise_insertionSort _ _
  exact hle.imp₂ (fun _ _ hle hne => lt_of_le_of_ne hle hne) (sortedIds_nodup ids)

theorem sortedIds_eq_nil_iff : sortedIds ids = [] ↔ ids = [] := by
  simp [eq_nil_iff_forall_not_mem]

@[simp] theorem invalidPlan_valid (findings : List DirectedEventGraphFinding) (n e : ℕ) :
    (invalidPlan findings n e).valid = false := rfl

/-- A graph without defects: distinct nodes, each with distinct dependencies on other nodes, and no
cycle. -/
structure WellFormedGraph (nodes : List DirectedEventNode) : Prop where
  ne_nil : nodes ≠ []
  ids_nodup : (nodes.map (·.nodeId)).Nodup
  dependencies_nodup : ∀ node ∈ nodes, node.dependencyNodeIds.Nodup
  dependencies_ne : ∀ node ∈ nodes, node.nodeId ∉ node.dependencyNodeIds
  dependencies_mem : ∀ node ∈ nodes, node.dependencyNodeIds ⊆ nodes.map (·.nodeId)
  ranked : ∃ rank : String → ℕ, ∀ node ∈ nodes, ∀ d ∈ node.dependencyNodeIds,
    rank d < rank node.nodeId

variable {node : DirectedEventNode}

theorem dependencyFindings_eq_nil_iff : dependencyFindings ids node = [] ↔
      node.dependencyNodeIds.Nodup ∧ node.nodeId ∉ node.dependencyNodeIds ∧
        node.dependencyNodeIds ⊆ ids := by
  have hmissing : sortedIds (node.dependencyNodeIds.filter fun d => d ∉ ids) = [] ↔
      node.dependencyNodeIds ⊆ ids := by
    rw [sortedIds_eq_nil_iff, filter_eq_nil_iff]
    simp [subset_def]
  simp only [dependencyFindings, append_eq_nil_iff, ite_eq_left_iff, ite_eq_right_iff,
    cons_ne_nil, imp_false, not_not, hmissing, and_assoc]

variable {nodes : List DirectedEventNode}

theorem dependenciesOf_declared (hids : (nodes.map (·.nodeId)).Nodup) :
    Declared (nodes.map (·.nodeId)) (dependenciesOf nodes) where
  nodes_nodup := hids
  dependencies_nodup id := by
    unfold dependenciesOf
    cases row? (·.nodeId) nodes id with
    | none => exact nodup_nil
    | some node => exact sortedIds_nodup _
  dependencies_eq_nil id hid := by
    unfold dependenciesOf
    cases hrow : row? (·.nodeId) nodes id with
    | none => rfl
    | some node => exact absurd (row?_isSome_iff.mp (by rw [hrow]; rfl)) hid

theorem mem_dependenciesOf_iff (hids : (nodes.map (·.nodeId)).Nodup) (hnode : node ∈ nodes)
    (hclean : dependencyFindings (nodes.map (·.nodeId)) node = []) {d : String} :
    d ∈ dependenciesOf nodes node.nodeId ↔ d ∈ node.dependencyNodeIds := by
  obtain ⟨_, hself, hsub⟩ := dependencyFindings_eq_nil_iff.mp hclean
  have hrow : row? (·.nodeId) nodes node.nodeId = some node := row?_eq_some hids hnode
  rw [dependenciesOf, hrow]
  simp only [presentDependencies, mem_sortedIds, mem_filter]
  refine ⟨fun h => h.1, fun h => ⟨h, ?_⟩⟩
  have hne : d ≠ node.nodeId := fun he => hself (he ▸ h)
  exact decide_eq_true ⟨hsub h, hne⟩

/-- Without findings the order reaches every node exactly when the declared dependencies can be
ranked. -/
theorem finish_ordered_length_iff_ranked (hids : (nodes.map (·.nodeId)).Nodup)
    (hclean : ∀ node ∈ nodes, dependencyFindings (nodes.map (·.nodeId)) node = []) :
    (finish (readyKey nodes) (nodes.map (·.nodeId)) (dependenciesOf nodes)).ordered.length =
        (nodes.map (·.nodeId)).length ↔
      ∃ rank : String → ℕ, ∀ node ∈ nodes, ∀ d ∈ node.dependencyNodeIds,
        rank d < rank node.nodeId := by
  rw [finish_ordered_length_iff (readyKey nodes) (dependenciesOf_declared hids)]
  · simp only [forall_mem_map]
    refine exists_congr fun rank => forall₂_congr fun node hnode => forall_congr' fun d => ?_
    rw [mem_dependenciesOf_iff hids hnode (hclean node hnode)]
  · rw [forall_mem_map]
    intro node hnode d hd
    have hd' := (mem_dependenciesOf_iff hids hnode (hclean node hnode)).mp hd
    exact (dependencyFindings_eq_nil_iff.mp (hclean node hnode)).2.2 hd'

theorem resolveDistinctNodes_valid_iff : (resolveDistinctNodes nodes).valid = true ↔
      (∀ node ∈ nodes, dependencyFindings (nodes.map (·.nodeId)) node = []) ∧
        (finish (readyKey nodes) (nodes.map (·.nodeId)) (dependenciesOf nodes)).ordered.length =
          (nodes.map (·.nodeId)).length := by
  rw [length_map, ← flatMap_eq_nil_iff]
  unfold resolveDistinctNodes
  by_cases hfindings : nodes.flatMap (dependencyFindings (nodes.map (·.nodeId))) = []
  · by_cases hlen : (finish (readyKey nodes) (nodes.map (·.nodeId))
        (dependenciesOf nodes)).ordered.length = nodes.length
    · simp [hfindings, hlen]
    · simp [hfindings, hlen]
  · simp [hfindings]

theorem resolveDistinctNodes_orderedNodes
    (hclean : ∀ node ∈ nodes, dependencyFindings (nodes.map (·.nodeId)) node = [])
    (hlen : (finish (readyKey nodes) (nodes.map (·.nodeId)) (dependenciesOf nodes)).ordered.length =
      (nodes.map (·.nodeId)).length) :
    (resolveDistinctNodes nodes).orderedNodes =
      (finish (readyKey nodes) (nodes.map (·.nodeId))
        (dependenciesOf nodes)).ordered.filterMap (row? (·.nodeId) nodes) := by
  rw [length_map] at hlen
  simp [resolveDistinctNodes, flatMap_eq_nil_iff.mpr hclean, hlen]

theorem resolveDirectedEventGraph_eq (hne : nodes ≠ []) (hids : (nodes.map (·.nodeId)).Nodup) :
    resolveDirectedEventGraph nodes = resolveDistinctNodes nodes := by
  simp [resolveDirectedEventGraph, repeats_eq_nil_iff.mpr hids, hne]

theorem resolveDirectedEventGraph_distinct (h : (resolveDirectedEventGraph nodes).valid = true) :
    nodes ≠ [] ∧ (nodes.map (·.nodeId)).Nodup := by
  by_contra hn
  have hfindings : ((repeats (·.nodeId) nodes).map fun p => repeatedNodeFinding p.1 p.2) ++
      (if nodes = [] then [⟨.emptyGraph, [], []⟩] else []) ≠ [] := by
    intro hnil
    rw [append_eq_nil_iff, map_eq_nil_iff, repeats_eq_nil_iff] at hnil
    refine hn ⟨fun hempty => ?_, hnil.1⟩
    simp [hempty] at hnil
  rw [resolveDirectedEventGraph, if_pos hfindings] at h
  exact Bool.false_ne_true h

theorem resolveDirectedEventGraph_valid_iff (nodes : List DirectedEventNode) :
    (resolveDirectedEventGraph nodes).valid = true ↔ WellFormedGraph nodes := by
  constructor
  · intro h
    obtain ⟨hne, hids⟩ := resolveDirectedEventGraph_distinct h
    rw [resolveDirectedEventGraph_eq hne hids, resolveDistinctNodes_valid_iff] at h
    have hnodes := fun node hnode => dependencyFindings_eq_nil_iff.mp (h.1 node hnode)
    exact ⟨hne, hids, fun node hnode => (hnodes node hnode).1,
      fun node hnode => (hnodes node hnode).2.1, fun node hnode => (hnodes node hnode).2.2,
      (finish_ordered_length_iff_ranked hids h.1).mp h.2⟩
  · intro hg
    have hclean : ∀ node ∈ nodes, dependencyFindings (nodes.map (·.nodeId)) node = [] :=
      fun node hnode => dependencyFindings_eq_nil_iff.mpr
        ⟨hg.dependencies_nodup node hnode, hg.dependencies_ne node hnode,
          hg.dependencies_mem node hnode⟩
    rw [resolveDirectedEventGraph_eq hg.ne_nil hg.ids_nodup, resolveDistinctNodes_valid_iff]
    exact ⟨hclean, (finish_ordered_length_iff_ranked hg.ids_nodup hclean).mpr hg.ranked⟩

/-! ## The order of a valid graph -/

theorem resolveDirectedEventGraph_ordered (h : (resolveDirectedEventGraph nodes).valid = true) :
    (resolveDirectedEventGraph nodes).orderedNodes.Perm nodes ∧
      ∀ node ∈ nodes, ∀ d ∈ node.dependencyNodeIds, ∃ other ∈ nodes, other.nodeId = d ∧
        [other, node].Sublist (resolveDirectedEventGraph nodes).orderedNodes := by
  have hg := (resolveDirectedEventGraph_valid_iff nodes).mp h
  have hids := hg.ids_nodup
  rw [resolveDirectedEventGraph_eq hg.ne_nil hids] at h ⊢
  obtain ⟨hclean, hlen⟩ := resolveDistinctNodes_valid_iff.mp h
  have hdeclared := dependenciesOf_declared hids
  have hperm := finish_ordered_perm (readyKey nodes) hdeclared hlen
  rw [resolveDistinctNodes_orderedNodes hclean hlen]
  refine ⟨(hperm.filterMap _).trans (.of_eq (filterMap_row? hids)), fun node hnode d hd => ?_⟩
  have hid : node.nodeId ∈ nodes.map (·.nodeId) := mem_map_of_mem hnode
  obtain ⟨other, hother, rfl⟩ := mem_map.mp (hg.dependencies_mem node hnode hd)
  have hbefore := (finish_sound (readyKey nodes) hdeclared).precedes node.nodeId
    (hperm.mem_iff.mpr hid) other.nodeId
    ((mem_dependenciesOf_iff hids hnode (hclean node hnode)).mpr hd)
  have hrows : [other.nodeId, node.nodeId].filterMap (row? (·.nodeId) nodes) = [other, node] := by
    have h₁ : row? (·.nodeId) nodes other.nodeId = some other := row?_eq_some hids hother
    have h₂ : row? (·.nodeId) nodes node.nodeId = some node := row?_eq_some hids hnode
    simp [h₁, h₂]
  exact ⟨other, hother, rfl, hrows ▸ hbefore.filterMap _⟩

section Children

variable {definitionDigest : EventChild → String} {children : List EventChild}

theorem childById_eq_some (hids : (children.map (·.transactionId)).Nodup) {child : EventChild}
    (hchild : child ∈ children) : childById children child.transactionId = some child := by
  have hrev : (children.reverse.map (·.transactionId)).Nodup := by
    rw [map_reverse]
    exact nodup_reverse.mpr hids
  exact row?_eq_some hrev (mem_reverse.mpr hchild)

theorem resolveEventGraph_ids_nodup
    (h : (resolveEventGraph definitionDigest children).valid = true) :
    (children.map (·.transactionId)).Nodup := by
  have hg := (resolveDirectedEventGraph_valid_iff _).mp h
  simpa [map_map, Function.comp_def, EventChild.directedNode] using hg.ids_nodup

theorem resolveEventGraph_ordered (h : (resolveEventGraph definitionDigest children).valid = true) :
    (resolveEventGraph definitionDigest children).orderedChildren.Perm children ∧
      ∀ child ∈ children, ∀ d ∈ child.dependencyTransactionIds, ∃ other ∈ children,
        other.transactionId = d ∧
        [other, child].Sublist (resolveEventGraph definitionDigest children).orderedChildren := by
  obtain ⟨hperm, hbefore⟩ := resolveDirectedEventGraph_ordered h
  have hids := resolveEventGraph_ids_nodup h
  have hback : ∀ child ∈ children, childById children
      (child.directedNode definitionDigest).nodeId = some child :=
    fun child hchild => childById_eq_some hids hchild
  refine ⟨?_, fun child hchild d hd => ?_⟩
  · refine (hperm.filterMap _).trans (.of_eq ?_)
    rw [filterMap_map]
    exact (filterMap_congr hback).trans filterMap_some
  · obtain ⟨node, hnode, rfl, hsub⟩ := hbefore _ (mem_map_of_mem hchild) d hd
    obtain ⟨other, hother, rfl⟩ := mem_map.mp hnode
    have hrows : [other.directedNode definitionDigest,
        child.directedNode definitionDigest].filterMap
        (fun node => childById children node.nodeId) = [other, child] := by
      simp [hback other hother, hback child hchild]
    exact ⟨other, hother, rfl, hrows ▸ hsub.filterMap _⟩

end Children

end LotusCore
