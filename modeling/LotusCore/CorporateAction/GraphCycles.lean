import LotusCore.CorporateAction.GraphOrder

/-!
# The cycles of an event graph

A loop that stops early leaves the nodes that wait for a cycle. The diagnosis names each of them
once: in its cycle, or as blocked by one.

* `Entangled`, `IsCycle`: nodes that depend on each other, and the components of more than one node.
* `CleanGraph.reach_iff`: the searches follow the declared dependencies backwards.
* `CleanGraph.mem_reportedComponents_iff`: the searches collect the cycles.
* **`cycle_diagnosis_exact`**: which nodes the findings name.
-/

namespace LotusCore

open Components Table Topological List

/-- Nodes that depend on each other, directly or through others. -/
def Entangled (nodes : List DirectedEventNode) (id other : String) : Prop :=
  Relation.ReflTransGen (DependsOn nodes) id other ∧
    Relation.ReflTransGen (DependsOn nodes) other id

/-- A strongly connected component with more than one node, as a sorted list. -/
structure IsCycle (nodes : List DirectedEventNode) (component : List String) : Prop where
  sorted : component.Pairwise (· < ·)
  length : 1 < component.length
  component : ∃ id ∈ nodes.map (·.nodeId), ∀ other, other ∈ component ↔ Entangled nodes id other

def unresolvedIds (nodes : List DirectedEventNode) : List String :=
  (nodes.map (·.nodeId)).filter fun id =>
    (finish (readyKey nodes) (nodes.map (·.nodeId)) (dependenciesOf nodes)).indegree id ≠ 0

section Diagnosis

variable {nodes : List DirectedEventNode} (hg : CleanGraph nodes)

include hg

variable {id : String}

theorem CleanGraph.mem_unresolvedIds : id ∈ unresolvedIds nodes ↔ id ∈ nodes.map (·.nodeId) ∧
      id ∉ (finish (readyKey nodes) (nodes.map (·.nodeId)) (dependenciesOf nodes)).ordered := by
  have hdeclared := dependenciesOf_declared hg.ids_nodup
  have hmem := (finish_sound (readyKey nodes) hdeclared).mem_iff id
  rw [finish_ready (readyKey nodes) hdeclared, append_nil] at hmem
  rw [unresolvedIds, mem_filter, hmem]
  simp only [ne_eq, decide_not, Bool.not_eq_eq_eq_not, Bool.not_true, decide_eq_false_iff_not,
    not_and]
  exact ⟨fun h => ⟨h.1, fun _ => h.2⟩, fun h => ⟨h.1, h.2 h.1⟩⟩

theorem CleanGraph.edges : (fun x y => y ∈ dependenciesOf nodes x) = DependsOn nodes :=
  funext₂ fun _ _ => propext hg.mem_dependenciesOf_iff_dependsOn

theorem CleanGraph.unresolved_of_dependsOn {id d : String} (h : DependsOn nodes id d)
    (hd : d ∈ unresolvedIds nodes) : id ∈ unresolvedIds nodes := by
  have hdeclared := dependenciesOf_declared hg.ids_nodup
  have hedge := hg.mem_dependenciesOf_iff_dependsOn.mpr h
  obtain ⟨node, hnode, rfl, _⟩ := h
  refine hg.mem_unresolvedIds.mpr ⟨mem_map_of_mem hnode, fun hlisted => ?_⟩
  exact (hg.mem_unresolvedIds.mp hd).2
    (((mem_finish_ordered (readyKey nodes) hdeclared _).mp hlisted).2 d hedge)

theorem CleanGraph.unresolved_of_reflTransGen {id d : String}
    (h : Relation.ReflTransGen (DependsOn nodes) id d) (hd : d ∈ unresolvedIds nodes) :
    id ∈ unresolvedIds nodes := by
  induction h using Relation.ReflTransGen.head_induction_on with
  | refl => exact hd
  | head hedge _ ih => exact hg.unresolved_of_dependsOn hedge ih

theorem CleanGraph.unresolved_of_transGen
    (h : Relation.TransGen (DependsOn nodes) id id) : id ∈ unresolvedIds nodes := by
  have hid : id ∈ nodes.map (·.nodeId) := by
    obtain ⟨_, ⟨node, hnode, rfl, _⟩, _⟩ := Relation.TransGen.head'_iff.mp h
    exact mem_map_of_mem hnode
  refine hg.mem_unresolvedIds.mpr ⟨hid, fun hlisted => ?_⟩
  rw [← hg.edges] at h
  exact lt_irrefl _ (idxOf_lt_of_transGen (readyKey nodes) (dependenciesOf_declared hg.ids_nodup)
    hlisted h).2

theorem CleanGraph.exists_cycle (hid : id ∈ unresolvedIds nodes) :
    ∃ d, Relation.ReflTransGen (DependsOn nodes) id d ∧
      Relation.TransGen (DependsOn nodes) d d := by
  obtain ⟨hname, hunlisted⟩ := hg.mem_unresolvedIds.mp hid
  obtain ⟨d, _, hreach, hcycle⟩ := exists_cycle_of_unlisted (readyKey nodes)
    (dependenciesOf_declared hg.ids_nodup) hg.dependenciesOf_subset hname hunlisted
  rw [hg.edges] at hreach hcycle
  exact ⟨d, hreach, hcycle⟩

/-! ## What the searches collect -/

omit hg in
variable (nodes) in
/-- The edges of the first search: the unresolved nodes that wait for a node. -/
def waitingIds (id : String) : List String :=
  sortedIds ((dependantsOf (nodes.map (·.nodeId)) (dependenciesOf nodes) id).filter
    (· ∈ unresolvedIds nodes))

variable {other : String}

theorem CleanGraph.mem_waitingIds :
    other ∈ waitingIds nodes id ↔ DependsOn nodes other id ∧ other ∈ unresolvedIds nodes := by
  rw [waitingIds, mem_sortedIds, mem_filter, dependantsOf, mem_filter,
    decide_eq_true_eq, decide_eq_true_eq, hg.mem_dependenciesOf_iff_dependsOn]
  exact ⟨fun h => ⟨h.1.2, h.2⟩, fun h => ⟨⟨(hg.mem_unresolvedIds.mp h.2).1, h.1⟩, h.2⟩⟩

theorem CleanGraph.reach_iff (hid : id ∈ unresolvedIds nodes) :
    Reach (waitingIds nodes) id other ↔ Relation.ReflTransGen (DependsOn nodes) other id := by
  constructor
  · intro h
    induction h with
    | refl => exact .refl
    | tail _ hedge ih => exact ih.head (hg.mem_waitingIds.mp hedge).1
  · intro h
    induction h using Relation.ReflTransGen.head_induction_on with
    | refl => exact .refl
    | head hedge hrest ih =>
      have hnext := hg.unresolved_of_dependsOn hedge (hg.unresolved_of_reflTransGen hrest hid)
      exact ih.tail (hg.mem_waitingIds.mpr ⟨hedge, hnext⟩)

theorem CleanGraph.mutual_iff (hid : id ∈ unresolvedIds nodes) :
    Mutual (waitingIds nodes) id other ↔ Entangled nodes id other := by
  constructor
  · intro h
    have hback := (hg.reach_iff hid).mp h.1
    exact ⟨(hg.reach_iff (hg.unresolved_of_reflTransGen hback hid)).mp h.2, hback⟩
  · intro h
    have hother := hg.unresolved_of_reflTransGen h.2 hid
    exact ⟨(hg.reach_iff hid).mpr h.2, (hg.reach_iff hother).mpr h.1⟩

/-- The components of a clean graph: the unresolved nodes, each in one class of entangled nodes. -/
theorem CleanGraph.exists_parts : ∃ parts : List (List String),
    cyclicComponents (unresolvedIds nodes)
        (dependantsOf (nodes.map (·.nodeId)) (dependenciesOf nodes)) (dependenciesOf nodes) =
      ((parts.filter (1 < ·.length)).map sortedIds).insertionSort (· ≤ ·) ∧
    parts.flatten.Nodup ∧ (∀ id, id ∈ parts.flatten ↔ id ∈ unresolvedIds nodes) ∧
    ∀ part ∈ parts, ∃ id ∈ part, ∀ other, other ∈ part ↔ Entangled nodes id other := by
  have hnodup : (unresolvedIds nodes).Nodup := hg.ids_nodup.filter _
  have hclosed : ∀ x ∈ unresolvedIds nodes, waitingIds nodes x ⊆ unresolvedIds nodes :=
    fun x _ y hy => (hg.mem_waitingIds.mp hy).2
  have hpred : ∀ x ∈ unresolvedIds nodes, ∀ y,
      y ∈ (dependenciesOf nodes x).filter (· ∈ unresolvedIds nodes) ↔
        y ∈ unresolvedIds nodes ∧ x ∈ waitingIds nodes y := by
    intro x hx y
    rw [mem_filter, decide_eq_true_eq, hg.mem_waitingIds, hg.mem_dependenciesOf_iff_dependsOn]
    exact ⟨fun h => ⟨h.2, h.1, hx⟩, fun h => ⟨h.2.1, h.1⟩⟩
  obtain ⟨hfinish, hall, hlate⟩ := finishOrder_spec hnodup hclosed
    (sortedIds (unresolvedIds nodes)) fun _ => mem_sortedIds
  obtain ⟨parts, hparts, hmem⟩ := collectComponents_spec sortedIds hnodup hclosed hpred
    hfinish hall hlate
  refine ⟨parts, ?_, hparts.nodup, hmem, fun part hpart => ?_⟩
  · rw [← hparts.cyclic]
    rfl
  · obtain ⟨id, hid, hunresolved, hclass⟩ := hparts.classes part hpart
    exact ⟨id, hid, fun other => (hclass other).trans (hg.mutual_iff hunresolved)⟩

omit hg in
/-- A component of more than one node is one that depends on itself through others. -/
theorem transGen_of_entangled (h : Entangled nodes id other) (hne : id ≠ other) :
    Relation.TransGen (DependsOn nodes) id id := by
  rcases Relation.reflTransGen_iff_eq_or_transGen.mp h.1 with rfl | hforth
  · exact absurd rfl hne
  · exact hforth.trans_left h.2

omit hg in
theorem IsCycle.nodup {component : List String} (h : IsCycle nodes component) : component.Nodup :=
  h.sorted.imp fun hlt => hlt.ne

omit hg in
theorem IsCycle.transGen {component : List String} (h : IsCycle nodes component)
    (hid : id ∈ component) : Relation.TransGen (DependsOn nodes) id id := by
  obtain ⟨first, _, hclass⟩ := h.component
  -- another node of the component, to which the dependencies of the node lead
  have hother : ∃ other ∈ component, id ≠ other := by
    by_contra hnone
    push Not at hnone
    have hsub : component ⊆ [id] := fun x hx => mem_singleton.mpr (hnone x hx).symm
    have hle := (h.nodup.subperm hsub).length_le
    have hlength := h.length
    rw [length_singleton] at hle
    omega
  obtain ⟨other, hmem, hne⟩ := hother
  obtain ⟨hto, hback⟩ := (hclass id).mp hid
  obtain ⟨hto', hback'⟩ := (hclass other).mp hmem
  exact transGen_of_entangled ⟨hback.trans hto', hback'.trans hto⟩ hne

/-- A node that depends on itself through others is in a component of more than one node. -/
theorem CleanGraph.exists_isCycle (h : Relation.TransGen (DependsOn nodes) id id) :
    ∃ component, IsCycle nodes component ∧ id ∈ component := by
  classical
  obtain ⟨next, hedge, hback⟩ := Relation.TransGen.head'_iff.mp h
  have hne : id ≠ next := by
    rintro rfl
    obtain ⟨node, hnode, rfl, hself⟩ := hedge
    exact hg.dependencies_ne node hnode hself
  have hname : ∀ other, Entangled nodes id other → other ∈ nodes.map (·.nodeId) := fun other h' =>
    (hg.mem_unresolvedIds.mp
      (hg.unresolved_of_reflTransGen h'.2 (hg.unresolved_of_transGen h))).1
  let component := sortedIds ((nodes.map (·.nodeId)).filter fun other => Entangled nodes id other)
  have hmem : ∀ other, other ∈ component ↔ Entangled nodes id other := by
    intro other
    rw [mem_sortedIds, mem_filter, decide_eq_true_eq]
    exact ⟨fun h' => h'.2, fun h' => ⟨hname other h', h'⟩⟩
  have hself : Entangled nodes id id := ⟨.refl, .refl⟩
  refine ⟨component, ⟨sortedIds_pairwise _, ?_, id, hname id hself, hmem⟩, (hmem id).mpr hself⟩
  have hpair : [id, next] ⊆ component := by
    intro x hx
    rcases mem_pair.mp hx with rfl | rfl
    · exact (hmem x).mpr hself
    · exact (hmem x).mpr ⟨.single hedge, hback⟩
  have hnodup : [id, next].Nodup := by simp [hne]
  exact (hnodup.subperm hpair).length_le

omit hg in
theorem mem_iff_of_entangled {class₁ class₂ : List String} {first second id : String}
    (h₁ : ∀ x, x ∈ class₁ ↔ Entangled nodes first x)
    (h₂ : ∀ x, x ∈ class₂ ↔ Entangled nodes second x) (hid₁ : id ∈ class₁) (hid₂ : id ∈ class₂)
    (x : String) : x ∈ class₁ ↔ x ∈ class₂ := by
  obtain ⟨hto, hback⟩ := (h₁ id).mp hid₁
  obtain ⟨hto', hback'⟩ := (h₂ id).mp hid₂
  rw [h₁, h₂]
  exact ⟨fun hx => ⟨hto'.trans (hback.trans hx.1), hx.2.trans (hto.trans hback')⟩,
    fun hx => ⟨hto.trans (hback'.trans hx.1), hx.2.trans (hto'.trans hback)⟩⟩

omit hg in
theorem IsCycle.eq_of_mem {component other : List String} (h : IsCycle nodes component)
    (h' : IsCycle nodes other) (hid : id ∈ component) (hid' : id ∈ other) :
    component = other := by
  obtain ⟨first, _, hclass⟩ := h.component
  obtain ⟨second, _, hclass'⟩ := h'.component
  have hsame := mem_iff_of_entangled hclass hclass' hid hid'
  exact ((perm_ext_iff_of_nodup h.nodup h'.nodup).mpr hsame).eq_of_pairwise
    (fun a b _ _ hab hba => absurd hba hab.asymm) h.sorted h'.sorted

omit hg in
variable (nodes) in
def reportedComponents : List (List String) :=
  cyclicComponents (unresolvedIds nodes)
    (dependantsOf (nodes.map (·.nodeId)) (dependenciesOf nodes)) (dependenciesOf nodes)

theorem CleanGraph.mem_reportedComponents_iff (component : List String) :
    component ∈ reportedComponents nodes ↔ IsCycle nodes component := by
  obtain ⟨parts, heq, hnodup, hmem, hclasses⟩ := hg.exists_parts
  rw [reportedComponents, heq, mem_insertionSort, mem_map]
  have hpart : ∀ part ∈ parts, 1 < part.length → IsCycle nodes (sortedIds part) := by
    intro part hpart hlength
    obtain ⟨id, hid, hclass⟩ := hclasses part hpart
    have hname := (hg.mem_unresolvedIds.mp ((hmem id).mp
      (mem_flatten.mpr ⟨part, hpart, hid⟩))).1
    refine ⟨sortedIds_pairwise part, ?_, id, hname, fun other => mem_sortedIds.trans (hclass other)⟩
    rwa [sortedIds, length_insertionSort, ((nodup_flatten.mp hnodup).1 part hpart).dedup]
  constructor
  · rintro ⟨part, hfilter, rfl⟩
    obtain ⟨hin, hlength⟩ := mem_filter.mp hfilter
    exact hpart part hin (of_decide_eq_true hlength)
  · intro hcycle
    -- a node of the cycle is unresolved and so in a part, which is then the cycle
    obtain ⟨id, hid⟩ := exists_mem_of_length_pos (Nat.zero_lt_of_lt hcycle.length)
    have hunresolved := hg.unresolved_of_transGen (hcycle.transGen hid)
    obtain ⟨part, hin, hmempart⟩ := mem_flatten.mp ((hmem id).mpr hunresolved)
    obtain ⟨first, _, hclass⟩ := hcycle.component
    obtain ⟨second, _, hclass'⟩ := hclasses part hin
    have hsub : component ⊆ part := fun x hx =>
      (mem_iff_of_entangled hclass hclass' hid hmempart x).mp hx
    have hlength : 1 < part.length := hcycle.length.trans_le (hcycle.nodup.subperm hsub).length_le
    exact ⟨part, mem_filter.mpr ⟨hin, decide_eq_true hlength⟩,
      (hpart part hin hlength).eq_of_mem hcycle (mem_sortedIds.mpr hmempart) hid⟩

theorem CleanGraph.flatten_reportedComponents_nodup : (reportedComponents nodes).flatten.Nodup := by
  obtain ⟨parts, heq, hnodup, _, _⟩ := hg.exists_parts
  have hdisjoint := (nodup_flatten.mp hnodup).2.filter (1 < ·.length)
  have hsorted : ((parts.filter (1 < ·.length)).map sortedIds).Pairwise List.Disjoint := by
    rw [pairwise_map]
    refine hdisjoint.imp fun {a b} h x hx hx' => ?_
    exact h (mem_sortedIds.mp hx) (mem_sortedIds.mp hx')
  have hperm := perm_insertionSort (· ≤ ·) ((parts.filter (1 < ·.length)).map sortedIds)
  rw [reportedComponents, heq, nodup_flatten]
  refine ⟨fun component hmem => ?_, hperm.symm.pairwise hsorted fun h => h.symm⟩
  obtain ⟨part, _, rfl⟩ := mem_map.mp (hperm.mem_iff.mp hmem)
  exact sortedIds_nodup part

/-! ## The findings -/

omit hg in
variable (nodes) in
/-- The unresolved nodes outside the reported components. -/
def blockedIds : List String :=
  sortedIds ((unresolvedIds nodes).filter fun id => id ∉ (reportedComponents nodes).flatten)

omit hg in
theorem cycleFindings_finish :
    cycleFindings nodes (finish (readyKey nodes) (nodes.map (·.nodeId)) (dependenciesOf nodes)) =
      ((reportedComponents nodes).map fun component => ⟨.dependencyCycle, component, []⟩) ++
        (blockedIds nodes).map fun id =>
          ⟨.blockedByCycle, [id], (dependenciesOf nodes id).filter (· ∈ unresolvedIds nodes)⟩ := rfl

theorem CleanGraph.mem_flatten_reportedComponents :
    id ∈ (reportedComponents nodes).flatten ↔
      ∃ component, IsCycle nodes component ∧ id ∈ component := by
  rw [mem_flatten]
  exact exists_congr fun component => and_congr_left' (hg.mem_reportedComponents_iff component)

omit hg in
theorem mem_blockedIds : id ∈ blockedIds nodes ↔ id ∈ unresolvedIds nodes ∧
      id ∉ (reportedComponents nodes).flatten := by
  rw [blockedIds, mem_sortedIds, mem_filter, decide_eq_true_eq]

theorem CleanGraph.cycleFindings_eq_nil (h : unresolvedIds nodes = []) :
    cycleFindings nodes (finish (readyKey nodes) (nodes.map (·.nodeId)) (dependenciesOf nodes)) =
      [] := by
  have hcomponents : reportedComponents nodes = [] := by
    refine eq_nil_iff_forall_not_mem.mpr fun component hmem => ?_
    have hcycle := (hg.mem_reportedComponents_iff component).mp hmem
    obtain ⟨id, hid⟩ := exists_mem_of_length_pos (Nat.zero_lt_of_lt hcycle.length)
    have hunresolved := hg.unresolved_of_transGen (hcycle.transGen hid)
    rw [h] at hunresolved
    exact not_mem_nil hunresolved
  have hblocked : blockedIds nodes = [] := by
    refine eq_nil_iff_forall_not_mem.mpr fun id hid => ?_
    have hunresolved := (mem_blockedIds.mp hid).1
    rw [h] at hunresolved
    exact not_mem_nil hunresolved
  rw [cycleFindings_finish, hcomponents, hblocked]
  rfl

theorem CleanGraph.findings_perm (hne : nodes ≠ []) :
    (resolveDirectedEventGraph nodes).findings.Perm
      (cycleFindings nodes
        (finish (readyKey nodes) (nodes.map (·.nodeId)) (dependenciesOf nodes))) := by
  have hclean : nodes.flatMap (dependencyFindings (nodes.map (·.nodeId))) = [] :=
    flatMap_eq_nil_iff.mpr hg.findings_eq_nil
  rw [resolveDirectedEventGraph_eq hne hg.ids_nodup, resolveDistinctNodes]
  dsimp only
  rw [if_neg (not_not.mpr hclean)]
  split_ifs with hlen
  · exact perm_insertionSort _ _
  · have hlen' : (finish (readyKey nodes) (nodes.map (·.nodeId))
        (dependenciesOf nodes)).ordered.length = (nodes.map (·.nodeId)).length := by
      rw [not_not.mp hlen, length_map]
    have hperm := finish_ordered_perm (readyKey nodes) (dependenciesOf_declared hg.ids_nodup) hlen'
    have hnone : unresolvedIds nodes = [] := by
      refine eq_nil_iff_forall_not_mem.mpr fun id hid => ?_
      obtain ⟨hname, hunlisted⟩ := hg.mem_unresolvedIds.mp hid
      exact hunlisted (hperm.mem_iff.mpr hname)
    rw [hg.cycleFindings_eq_nil hnone]

omit hg in
/-- In a list of lists without repetition, a value is in as many lists as it occurs. -/
theorem countP_mem_eq_count_flatten {lists : List (List String)} (h : lists.flatten.Nodup)
    (id : String) : lists.countP (id ∈ ·) = lists.flatten.count id := by
  induction lists with
  | nil => rfl
  | cons l rest ih =>
    obtain ⟨hl, hrest, _⟩ := nodup_append.mp h
    rw [countP_cons, ih hrest, flatten_cons, count_append, hl.count, add_comm]
    simp

theorem CleanGraph.countP_cycleFindings (hid : id ∈ unresolvedIds nodes) :
    (cycleFindings nodes (finish (readyKey nodes) (nodes.map (·.nodeId))
      (dependenciesOf nodes))).countP (id ∈ ·.nodeIds) = 1 := by
  have hblocked : (blockedIds nodes).countP (fun other => decide (id ∈ [other])) =
      (blockedIds nodes).count id := by
    refine countP_congr fun other _ => ?_
    rw [decide_eq_true_eq, mem_singleton, beq_iff_eq]
    exact eq_comm
  have hnodup : (blockedIds nodes).Nodup := sortedIds_nodup _
  rw [cycleFindings_finish, countP_append, countP_map, countP_map]
  simp only [Function.comp_def]
  rw [countP_mem_eq_count_flatten hg.flatten_reportedComponents_nodup, hblocked,
    hg.flatten_reportedComponents_nodup.count, hnodup.count]
  by_cases hin : id ∈ (reportedComponents nodes).flatten
  · have hnot : id ∉ blockedIds nodes := fun h => (mem_blockedIds.mp h).2 hin
    rw [if_pos hin, if_neg hnot]
  · rw [if_neg hin, if_pos (mem_blockedIds.mpr ⟨hid, hin⟩)]

theorem CleanGraph.mem_blockedIds_iff (id : String) :
    id ∈ blockedIds nodes ↔ (∀ component, IsCycle nodes component → id ∉ component) ∧
      ∃ component, IsCycle nodes component ∧
        ∃ member ∈ component, Relation.TransGen (DependsOn nodes) id member := by
  rw [mem_blockedIds, hg.mem_flatten_reportedComponents]
  push Not
  constructor
  · rintro ⟨hunresolved, houtside⟩
    obtain ⟨member, hreach, hcycle⟩ := hg.exists_cycle hunresolved
    obtain ⟨component, hcomponent, hmem⟩ := hg.exists_isCycle hcycle
    refine ⟨houtside, component, hcomponent, member, hmem, ?_⟩
    rcases Relation.reflTransGen_iff_eq_or_transGen.mp hreach with rfl | hpath
    · exact absurd hmem (houtside component hcomponent)
    · exact hpath
  · rintro ⟨houtside, component, hcomponent, member, hmem, hpath⟩
    have hmember := hg.unresolved_of_transGen (hcomponent.transGen hmem)
    exact ⟨hg.unresolved_of_reflTransGen hpath.to_reflTransGen hmember, houtside⟩

end Diagnosis

/-- In a graph of distinct nodes whose dependencies are distinct other nodes, the cycle findings
name the strongly connected components of more than one node, the blocked findings the nodes outside
them that depend on one, and each node the loop could not order is named by one finding. -/
theorem cycle_diagnosis_exact (nodes : List DirectedEventNode) (hg : CleanGraph nodes) :
    (∀ component, (∃ finding ∈ (resolveDirectedEventGraph nodes).findings,
        finding.reason = .dependencyCycle ∧ finding.nodeIds = component) ↔
      IsCycle nodes component) ∧
    (∀ ids, (∃ finding ∈ (resolveDirectedEventGraph nodes).findings,
        finding.reason = .blockedByCycle ∧ finding.nodeIds = ids) ↔
      ∃ id, ids = [id] ∧ (∀ component, IsCycle nodes component → id ∉ component) ∧
        ∃ component, IsCycle nodes component ∧
          ∃ member ∈ component, Relation.TransGen (DependsOn nodes) id member) ∧
    ∀ id ∈ nodes.map (·.nodeId),
      id ∉ (finish (readyKey nodes) (nodes.map (·.nodeId)) (dependenciesOf nodes)).ordered →
        ((resolveDirectedEventGraph nodes).findings.filter (id ∈ ·.nodeIds)).length = 1 := by
  -- an empty graph has its own finding, and nothing to diagnose
  have hfindings : ∀ finding : DirectedEventGraphFinding, finding.reason ≠ .emptyGraph →
      (finding ∈ (resolveDirectedEventGraph nodes).findings ↔
        finding ∈ cycleFindings nodes
          (finish (readyKey nodes) (nodes.map (·.nodeId)) (dependenciesOf nodes))) := by
    intro finding hreason
    by_cases hne : nodes = []
    · subst hne
      refine iff_of_false (fun hmem => hreason ?_) ?_
      · obtain rfl := mem_singleton.mp hmem
        rfl
      · rw [hg.cycleFindings_eq_nil rfl]
        exact not_mem_nil
    · exact (hg.findings_perm hne).mem_iff
  refine ⟨fun component => ?_, fun ids => ?_, fun id hname hunlisted => ?_⟩
  · rw [← hg.mem_reportedComponents_iff]
    constructor
    · rintro ⟨finding, hmem, hreason, rfl⟩
      rw [hfindings finding (by rw [hreason]; decide), cycleFindings_finish, mem_append] at hmem
      rcases hmem with hmem | hmem
      · obtain ⟨component, hcomponent, rfl⟩ := mem_map.mp hmem
        exact hcomponent
      · obtain ⟨id, _, rfl⟩ := mem_map.mp hmem
        exact absurd hreason nofun
    · intro hcomponent
      refine ⟨⟨.dependencyCycle, component, []⟩, (hfindings _ (by simp)).mpr ?_, rfl, rfl⟩
      rw [cycleFindings_finish]
      exact mem_append_left _ (mem_map_of_mem hcomponent)
  · simp only [← hg.mem_blockedIds_iff]
    constructor
    · rintro ⟨finding, hmem, hreason, rfl⟩
      rw [hfindings finding (by rw [hreason]; decide), cycleFindings_finish, mem_append] at hmem
      rcases hmem with hmem | hmem
      · obtain ⟨component, _, rfl⟩ := mem_map.mp hmem
        exact absurd hreason nofun
      · obtain ⟨id, hid, rfl⟩ := mem_map.mp hmem
        exact ⟨id, rfl, hid⟩
    · rintro ⟨id, rfl, hid⟩
      refine ⟨⟨.blockedByCycle, [id],
        (dependenciesOf nodes id).filter (· ∈ unresolvedIds nodes)⟩, (hfindings _ (by simp)).mpr ?_,
        rfl, rfl⟩
      rw [cycleFindings_finish]
      exact mem_append_right _ (mem_map.mpr ⟨id, hid, rfl⟩)
  · have hne : nodes ≠ [] := by
      rintro rfl
      exact not_mem_nil hname
    rw [← countP_eq_length_filter, (hg.findings_perm hne).countP_eq]
    exact hg.countP_cycleFindings (hg.mem_unresolvedIds.mpr ⟨hname, hunlisted⟩)

theorem cycle_diagnosis_exact_pair :
    CleanGraph [⟨"a", ["b"], "1", ["1"]⟩, ⟨"b", ["a"], "2", ["2"]⟩, ⟨"c", ["a"], "3", ["3"]⟩] ∧
      ((resolveDirectedEventGraph [⟨"a", ["b"], "1", ["1"]⟩, ⟨"b", ["a"], "2", ["2"]⟩,
        ⟨"c", ["a"], "3", ["3"]⟩]).findings.filter ("c" ∈ ·.nodeIds)).length = 1 := by
  have hclean : CleanGraph
      [⟨"a", ["b"], "1", ["1"]⟩, ⟨"b", ["a"], "2", ["2"]⟩, ⟨"c", ["a"], "3", ["3"]⟩] :=
    ⟨by decide, by decide, by decide, by decide⟩
  exact ⟨hclean, (cycle_diagnosis_exact _ hclean).2.2 "c" (by decide) (by decide +kernel)⟩

end LotusCore
