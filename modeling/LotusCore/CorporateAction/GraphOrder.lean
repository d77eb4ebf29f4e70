import LotusCore.CorporateAction.EventGraph

/-!
# The order of an event graph

A graph without defects has one canonical order, however its nodes are declared; a graph with a
defect has none, and is told at least one finding.

* `EventOrder`: every node once, after the nodes it depends on.
* `CanonicalOrder`: the order that takes the least node it can, and so is the least of all.
* `CanonicalOrder.unique`: declaring the nodes in another order does not change it.
* **`resolveDirectedEventGraph_correct`**: what resolution accepts and returns.
-/

namespace LotusCore

open Components Table Topological List

def DirectedEventNode.readyKey (node : DirectedEventNode) : List String ×ₗ String :=
  toLex (node.orderKey, node.nodeId)

def DependsOn (nodes : List DirectedEventNode) (id dependency : String) : Prop :=
  ∃ node ∈ nodes, node.nodeId = id ∧ dependency ∈ node.dependencyNodeIds

structure EventOrder (nodes order : List DirectedEventNode) : Prop where
  perm : order.Perm nodes
  follows : ∀ done node rest, order = done ++ node :: rest →
    ∀ d ∈ node.dependencyNodeIds, d ∈ done.map (·.nodeId)

/-- The order that takes in every place the least of the nodes whose dependencies came before. -/
structure CanonicalOrder (nodes order : List DirectedEventNode) : Prop extends
    EventOrder nodes order where
  greedy : ∀ done node rest, order = done ++ node :: rest → ∀ other ∈ nodes, other ∉ done →
    (∀ d ∈ other.dependencyNodeIds, d ∈ done.map (·.nodeId)) → node.readyKey ≤ other.readyKey
  least : ∀ other, EventOrder nodes other →
    order.map DirectedEventNode.readyKey ≤ other.map DirectedEventNode.readyKey

variable {declared : List DirectedEventNode}

section Order

variable {nodes order other : List DirectedEventNode}

theorem EventOrder.of_perm (h : EventOrder nodes order)
    (hperm : nodes.Perm declared) : EventOrder declared order :=
  ⟨h.perm.trans hperm, h.follows⟩

theorem CanonicalOrder.of_perm (h : CanonicalOrder nodes order)
    (hperm : nodes.Perm declared) :
    CanonicalOrder declared order where
  toEventOrder := h.toEventOrder.of_perm hperm
  greedy done node rest heq next hnext := h.greedy done node rest heq next (hperm.mem_iff.mpr hnext)
  least other hother := h.least other (hother.of_perm hperm.symm)

theorem filterMap_row?_of_subset (hids : (nodes.map (·.nodeId)).Nodup) (hsub : order ⊆ nodes) :
    (order.map (·.nodeId)).filterMap (row? (·.nodeId) nodes) = order := by
  rw [filterMap_map]
  have hfound : ∀ node ∈ order, row? (·.nodeId) nodes node.nodeId = some node := fun node hnode =>
    row?_eq_some hids (hsub hnode)
  exact (filterMap_congr hfound).trans filterMap_some

theorem CanonicalOrder.unique (hids : (nodes.map (·.nodeId)).Nodup)
    (h : CanonicalOrder nodes order) (h' : CanonicalOrder nodes other) : order = other := by
  have hkeys : order.map DirectedEventNode.readyKey = other.map DirectedEventNode.readyKey :=
    le_antisymm (h.least other h'.toEventOrder) (h'.least order h.toEventOrder)
  have hnames : order.map (·.nodeId) = other.map (·.nodeId) := by
    have hsecond := congrArg (List.map fun key => (ofLex key).2) hkeys
    rw [map_map, map_map] at hsecond
    exact hsecond
  rw [← filterMap_row?_of_subset hids h.perm.subset, hnames,
    filterMap_row?_of_subset hids h'.perm.subset]

end Order

/-! ## Clean graphs -/

variable {node : DirectedEventNode}

section Clean

variable {nodes : List DirectedEventNode}

/-- Distinct clean declarations: what the loop and the diagnosis of its cycles may assume. -/
structure CleanGraph (nodes : List DirectedEventNode) : Prop where
  ids_nodup : (nodes.map (·.nodeId)).Nodup
  dependencies_nodup : ∀ node ∈ nodes, node.dependencyNodeIds.Nodup
  dependencies_ne : ∀ node ∈ nodes, node.nodeId ∉ node.dependencyNodeIds
  dependencies_mem : ∀ node ∈ nodes, node.dependencyNodeIds ⊆ nodes.map (·.nodeId)

theorem CleanGraph.findings_eq_nil (hg : CleanGraph nodes) :
    ∀ node ∈ nodes, dependencyFindings (nodes.map (·.nodeId)) node = [] := fun node hnode =>
  dependencyFindings_eq_nil_iff.mpr ⟨hg.dependencies_nodup node hnode,
    hg.dependencies_ne node hnode, hg.dependencies_mem node hnode⟩

theorem CleanGraph.mem_dependenciesOf (hg : CleanGraph nodes) (hnode : node ∈ nodes) {d : String} :
    d ∈ dependenciesOf nodes node.nodeId ↔ d ∈ node.dependencyNodeIds :=
  mem_dependenciesOf_iff hg.ids_nodup hnode (hg.findings_eq_nil node hnode)

theorem CleanGraph.mem_dependenciesOf_iff_dependsOn (hg : CleanGraph nodes) {id d : String} :
    d ∈ dependenciesOf nodes id ↔ DependsOn nodes id d := by
  by_cases hid : id ∈ nodes.map (·.nodeId)
  · obtain ⟨node, hnode, rfl⟩ := mem_map.mp hid
    rw [hg.mem_dependenciesOf hnode]
    refine ⟨fun h => ⟨node, hnode, rfl, h⟩, ?_⟩
    rintro ⟨other, hother, hsame, hd⟩
    exact eq_of_key hg.ids_nodup hother hnode hsame ▸ hd
  · rw [(dependenciesOf_declared hg.ids_nodup).dependencies_eq_nil id hid]
    refine iff_of_false not_mem_nil ?_
    rintro ⟨node, hnode, rfl, _⟩
    exact hid (mem_map_of_mem hnode)

theorem CleanGraph.dependenciesOf_subset (hg : CleanGraph nodes) :
    ∀ id ∈ nodes.map (·.nodeId), dependenciesOf nodes id ⊆ nodes.map (·.nodeId) := by
  intro id _ d hd
  obtain ⟨node, hnode, _, hmem⟩ := hg.mem_dependenciesOf_iff_dependsOn.mp hd
  exact hg.dependencies_mem node hnode hmem

theorem CleanGraph.wellFormed_iff (hg : CleanGraph nodes) :
    WellFormedGraph nodes ↔
      nodes ≠ [] ∧ ∀ id, ¬ Relation.TransGen (DependsOn nodes) id id := by
  have hacyclic := finish_ordered_length_iff_acyclic (readyKey nodes)
    (dependenciesOf_declared hg.ids_nodup) hg.dependenciesOf_subset
  rw [finish_ordered_length_iff_ranked hg.ids_nodup hg.findings_eq_nil] at hacyclic
  have hedges : (fun x y => y ∈ dependenciesOf nodes x) = DependsOn nodes :=
    funext₂ fun _ _ => propext hg.mem_dependenciesOf_iff_dependsOn
  rw [hedges] at hacyclic
  exact ⟨fun h => ⟨h.ne_nil, hacyclic.mp h.ranked⟩, fun h => ⟨h.1, hg.ids_nodup,
    hg.dependencies_nodup, hg.dependencies_ne, hg.dependencies_mem, hacyclic.mpr h.2⟩⟩

theorem WellFormedGraph.toClean (hg : WellFormedGraph nodes) : CleanGraph nodes :=
  ⟨hg.ids_nodup, hg.dependencies_nodup, hg.dependencies_ne, hg.dependencies_mem⟩

end Clean

/-! ## Valid graphs -/

section Valid

variable {nodes order : List DirectedEventNode}

theorem map_orderedNodes (h : (resolveDirectedEventGraph nodes).valid = true) :
    (resolveDirectedEventGraph nodes).orderedNodes.map (·.nodeId) =
      (finish (readyKey nodes) (nodes.map (·.nodeId)) (dependenciesOf nodes)).ordered := by
  have hg := (resolveDirectedEventGraph_valid_iff nodes).mp h
  rw [resolveDirectedEventGraph_eq hg.ne_nil hg.ids_nodup] at h ⊢
  obtain ⟨hclean, hlen⟩ := resolveDistinctNodes_valid_iff.mp h
  have hperm := finish_ordered_perm (readyKey nodes) (dependenciesOf_declared hg.ids_nodup) hlen
  rw [resolveDistinctNodes_orderedNodes hclean hlen, map_filterMap]
  refine (filterMap_congr fun id hid => ?_).trans filterMap_some
  obtain ⟨node, hnode, rfl⟩ := mem_map.mp (hperm.mem_iff.mp hid)
  rw [row?_eq_some hg.ids_nodup hnode]
  rfl

variable (hg : WellFormedGraph nodes)

include hg

theorem WellFormedGraph.of_perm (hperm : nodes.Perm declared) : WellFormedGraph declared where
  ne_nil hnil := hg.ne_nil (hnil ▸ hperm).eq_nil
  ids_nodup := (hperm.map _).nodup_iff.mp hg.ids_nodup
  dependencies_nodup node hnode := hg.dependencies_nodup node (hperm.mem_iff.mpr hnode)
  dependencies_ne node hnode := hg.dependencies_ne node (hperm.mem_iff.mpr hnode)
  dependencies_mem node hnode d hd :=
    (hperm.map _).subset (hg.dependencies_mem node (hperm.mem_iff.mpr hnode) hd)
  ranked := by
    obtain ⟨rank, hrank⟩ := hg.ranked
    exact ⟨rank, fun node hnode => hrank node (hperm.mem_iff.mpr hnode)⟩

theorem WellFormedGraph.readyKey_eq (hnode : node ∈ nodes) :
    readyKey nodes node.nodeId = node.readyKey := by
  have hrow : row? (·.nodeId) nodes node.nodeId = some node := row?_eq_some hg.ids_nodup hnode
  rw [readyKey, hrow]
  rfl

theorem WellFormedGraph.map_readyKey (hsub : order ⊆ nodes) :
    (order.map (·.nodeId)).map (readyKey nodes) = order.map DirectedEventNode.readyKey := by
  rw [map_map]
  exact map_congr_left fun node hnode => hg.readyKey_eq (hsub hnode)

theorem EventOrder.follows_names (h : EventOrder nodes order) :
    Follows (dependenciesOf nodes) (order.map (·.nodeId)) := by
  intro done id rest heq
  obtain ⟨first, last, rfl, rfl, hlast⟩ := map_eq_append_iff.mp heq
  obtain ⟨node, later, rfl, rfl, rfl⟩ := map_eq_cons_iff.mp hlast
  have hnode : node ∈ nodes := h.perm.subset (by simp)
  have hnodup : ((first ++ node :: later).map (·.nodeId)).Nodup :=
    (h.perm.map _).nodup_iff.mpr hg.ids_nodup
  refine ⟨fun hmem => ?_, fun d hd => ?_⟩
  · rw [map_append] at hnodup
    exact disjoint_of_nodup_append hnodup hmem mem_cons_self
  · exact h.follows first node later rfl d ((hg.toClean.mem_dependenciesOf hnode).mp hd)

omit hg in
theorem orderedNodes_canonical (h : (resolveDirectedEventGraph nodes).valid = true) :
    CanonicalOrder nodes (resolveDirectedEventGraph nodes).orderedNodes := by
  have hg := (resolveDirectedEventGraph_valid_iff nodes).mp h
  have hdeclared := dependenciesOf_declared hg.ids_nodup
  have hperm := (resolveDirectedEventGraph_ordered h).1
  have hnames := map_orderedNodes h
  generalize (resolveDirectedEventGraph nodes).orderedNodes = order at hperm hnames ⊢
  have hfollows := (finish_sound (readyKey nodes) hdeclared).follows
  have hgreedy : Greedy (readyKey nodes) (nodes.map (·.nodeId)) (dependenciesOf nodes)
      (finish (readyKey nodes) (nodes.map (·.nodeId)) (dependenciesOf nodes)).ordered :=
    finish_greedy hdeclared
  rw [← hnames] at hfollows hgreedy
  -- a place of the order as a place of its names
  have hplace : ∀ {done node rest}, order = done ++ node :: rest →
      node ∈ nodes ∧ done ⊆ nodes ∧ order.map (·.nodeId) =
        done.map (·.nodeId) ++ node.nodeId :: rest.map (·.nodeId) := by
    rintro done node rest rfl
    exact ⟨hperm.subset (by simp), fun x hx => hperm.subset (by simp [hx]), by simp⟩
  refine ⟨⟨hperm, fun done node rest heq d hd => ?_⟩,
    fun done node rest heq next hnext hnew hdeps => ?_, fun other hother => ?_⟩
  · obtain ⟨hnode, _, hmap⟩ := hplace heq
    exact (hfollows _ _ _ hmap).2 d ((hg.toClean.mem_dependenciesOf hnode).mpr hd)
  · obtain ⟨hnode, hdone, hmap⟩ := hplace heq
    have hfresh : next.nodeId ∉ done.map (·.nodeId) := by
      intro hmem
      obtain ⟨same, hsame, hid⟩ := mem_map.mp hmem
      exact hnew (eq_of_key hg.ids_nodup (hdone hsame) hnext hid ▸ hsame)
    have hle := hgreedy _ _ _ hmap next.nodeId (mem_map_of_mem hnext) hfresh fun d hd =>
      hdeps d ((hg.toClean.mem_dependenciesOf hnext).mp hd)
    rwa [hg.readyKey_eq hnode, hg.readyKey_eq hnext] at hle
  · have hinj : ∀ x ∈ nodes.map (·.nodeId), ∀ y ∈ nodes.map (·.nodeId),
        readyKey nodes x = readyKey nodes y → x = y := fun x _ y _ hsame =>
      congrArg (fun key => (ofLex key).2) hsame
    have hle := hgreedy.le hinj (hother.follows_names hg) (hperm.map _).subset
      (hother.perm.map _).subset (by simp [hperm.length_eq, hother.perm.length_eq])
    rwa [hg.map_readyKey hperm.subset, hg.map_readyKey hother.perm.subset] at hle

end Valid

/-! ## Graphs with a defect -/

section Invalid

variable {nodes : List DirectedEventNode}

theorem invalidPlan_findings_ne_nil {findings : List DirectedEventGraphFinding} (h : findings ≠ [])
    (n e : ℕ) : (invalidPlan findings n e).findings ≠ [] := by
  intro hnil
  have hlen := congrArg List.length hnil
  rw [invalidPlan, length_insertionSort] at hlen
  exact h (eq_nil_of_length_eq_zero hlen)

theorem cycleFindings_ne_nil (hids : (nodes.map (·.nodeId)).Nodup)
    (hlen : (finish (readyKey nodes) (nodes.map (·.nodeId)) (dependenciesOf nodes)).ordered.length ≠
      nodes.length) :
    cycleFindings nodes (finish (readyKey nodes) (nodes.map (·.nodeId)) (dependenciesOf nodes)) ≠
      [] := by
  have hdeclared := dependenciesOf_declared hids
  have hs := finish_sound (readyKey nodes) hdeclared
  have hready := finish_ready (readyKey nodes) hdeclared
  generalize finish (readyKey nodes) (nodes.map (·.nodeId)) (dependenciesOf nodes) = s at *
  have hmem := hs.mem_iff
  rw [hready, append_nil] at hmem
  intro hnil
  rw [cycleFindings, append_eq_nil_iff, map_eq_nil_iff, map_eq_nil_iff,
    sortedIds_eq_nil_iff, filter_eq_nil_iff] at hnil
  obtain ⟨hcomponents, hblocked⟩ := hnil
  rw [hcomponents] at hblocked
  have hall : nodes.map (·.nodeId) ⊆ s.ordered := by
    intro id hid
    refine (hmem id).mpr ⟨hid, ?_⟩
    by_contra hwait
    exact hblocked id (by simp [hid, hwait]) (by simp)
  have hle := (hids.subperm hall).length_le
  have hordered : s.ordered.Nodup := (nodup_append.mp hs.nodup).1
  have hge := (hordered.subperm fun id hid => ((hmem id).mp hid).1).length_le
  rw [length_map] at hle hge
  omega

theorem resolveDistinctNodes_invalid (hids : (nodes.map (·.nodeId)).Nodup)
    (h : (resolveDistinctNodes nodes).valid = false) :
    (resolveDistinctNodes nodes).orderedNodes = [] ∧
      (resolveDistinctNodes nodes).findings ≠ [] := by
  revert h
  unfold resolveDistinctNodes
  dsimp only
  split_ifs with hfindings hlen
  · exact fun _ => ⟨rfl, invalidPlan_findings_ne_nil hfindings _ _⟩
  · exact fun _ => ⟨rfl, invalidPlan_findings_ne_nil (cycleFindings_ne_nil hids hlen) _ _⟩
  · exact False.elim

theorem resolveDirectedEventGraph_invalid (h : (resolveDirectedEventGraph nodes).valid = false) :
    (resolveDirectedEventGraph nodes).orderedNodes = [] ∧
      (resolveDirectedEventGraph nodes).findings ≠ [] := by
  by_cases hdeclared : ((repeats (·.nodeId) nodes).map fun p => repeatedNodeFinding p.1 p.2) ++
      (if nodes = [] then [⟨.emptyGraph, [], []⟩] else []) = []
  · rw [resolveDirectedEventGraph, if_neg (not_not.mpr hdeclared)] at h ⊢
    rw [append_eq_nil_iff, map_eq_nil_iff, repeats_eq_nil_iff] at hdeclared
    exact resolveDistinctNodes_invalid hdeclared.1 h
  · rw [resolveDirectedEventGraph, if_pos hdeclared]
    exact ⟨rfl, invalidPlan_findings_ne_nil hdeclared _ _⟩

end Invalid

/-! ## Resolution -/

/-- Resolution accepts the nonempty graphs of distinct nodes with distinct dependencies on other
nodes and no cycle. It orders them canonically, whichever way they were declared; any other graph
has findings and no order. -/
theorem resolveDirectedEventGraph_correct (nodes : List DirectedEventNode) :
    ((resolveDirectedEventGraph nodes).valid = true ↔
      nodes ≠ [] ∧ (nodes.map (·.nodeId)).Nodup ∧
        (∀ node ∈ nodes, node.dependencyNodeIds.Nodup ∧ node.nodeId ∉ node.dependencyNodeIds ∧
          node.dependencyNodeIds ⊆ nodes.map (·.nodeId)) ∧
        ∀ id, ¬ Relation.TransGen (DependsOn nodes) id id) ∧
    ((resolveDirectedEventGraph nodes).valid = true →
      CanonicalOrder nodes (resolveDirectedEventGraph nodes).orderedNodes ∧
        ∀ declared : List DirectedEventNode, declared.Perm nodes →
          (resolveDirectedEventGraph declared).orderedNodes =
            (resolveDirectedEventGraph nodes).orderedNodes) ∧
    ((resolveDirectedEventGraph nodes).valid = false →
      (resolveDirectedEventGraph nodes).orderedNodes = [] ∧
        (resolveDirectedEventGraph nodes).findings ≠ []) := by
  have hiff : ∀ nodes : List DirectedEventNode, (resolveDirectedEventGraph nodes).valid = true ↔
      nodes ≠ [] ∧ (nodes.map (·.nodeId)).Nodup ∧
        (∀ node ∈ nodes, node.dependencyNodeIds.Nodup ∧ node.nodeId ∉ node.dependencyNodeIds ∧
          node.dependencyNodeIds ⊆ nodes.map (·.nodeId)) ∧
        ∀ id, ¬ Relation.TransGen (DependsOn nodes) id id := by
    intro nodes
    rw [resolveDirectedEventGraph_valid_iff]
    refine ⟨fun hg => ?_, fun ⟨hne, hids, hdeps, hacyclic⟩ => ?_⟩
    · exact ⟨hg.ne_nil, hg.ids_nodup, fun node hnode => ⟨hg.dependencies_nodup node hnode,
        hg.dependencies_ne node hnode, hg.dependencies_mem node hnode⟩,
        (hg.toClean.wellFormed_iff.mp hg).2⟩
    · have hclean : CleanGraph nodes := ⟨hids, fun node h => (hdeps node h).1,
        fun node h => (hdeps node h).2.1, fun node h => (hdeps node h).2.2⟩
      exact hclean.wellFormed_iff.mpr ⟨hne, hacyclic⟩
  refine ⟨hiff nodes, fun hvalid => ⟨orderedNodes_canonical hvalid, fun declared hperm => ?_⟩,
    resolveDirectedEventGraph_invalid⟩
  have hg := (resolveDirectedEventGraph_valid_iff nodes).mp hvalid
  have hvalid' := (resolveDirectedEventGraph_valid_iff declared).mpr (hg.of_perm hperm.symm)
  exact ((orderedNodes_canonical hvalid').of_perm hperm).unique hg.ids_nodup
    (orderedNodes_canonical hvalid)

end LotusCore
