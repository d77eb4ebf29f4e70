import LotusCore.CorporateAction.Manifest

/-!
# What readiness guarantees

A ready manifest was observed exactly as declared, and its order settles the cohort: the source
before the targets, cash after what it pays for, charges last. The order in which the children
arrive does not matter.

* `EventChild.Matches`: two declarations of one child.
* `Cohort`: a cohort without findings.
* `ReadyEvidence`: what readiness guarantees of the observed children and of the order.
* `manifest_readiness_sound`: every ready evaluation has this evidence.
* `manifest_readiness_arrival`: the evaluations along an arrival.
-/

namespace LotusCore

open Table List

/-! ## Canonical definitions -/

/-- Two declarations of one child: equal but for the order of the dependencies. -/
structure EventChild.Matches (a b : EventChild) : Prop where
  dependencies : a.dependencyTransactionIds.Perm b.dependencyTransactionIds
  fields : a = { b with dependencyTransactionIds := a.dependencyTransactionIds }

theorem EventChild.Matches.transactionId_eq {a b : EventChild} (h : a.Matches b) :
    a.transactionId = b.transactionId := by
  rw [h.fields]

/-- The canonical definitions of two children are equal exactly when the children match. -/
theorem EventChild.lineagePayload_eq_iff {a b : EventChild} :
    a.lineagePayload = b.lineagePayload ↔ a.Matches b := by
  have hsort : a.dependencyTransactionIds.insertionSort (· ≤ ·) =
      b.dependencyTransactionIds.insertionSort (· ≤ ·) ↔
      a.dependencyTransactionIds.Perm b.dependencyTransactionIds := by
    constructor
    · intro h
      have hb := perm_insertionSort (· ≤ ·) b.dependencyTransactionIds
      exact (perm_insertionSort (· ≤ ·) _).symm.trans (h ▸ hb)
    · intro h
      have hperm := (perm_insertionSort (· ≤ ·) a.dependencyTransactionIds).trans
        (h.trans (perm_insertionSort (· ≤ ·) b.dependencyTransactionIds).symm)
      exact hperm.eq_of_pairwise (fun x y _ _ => le_antisymm) (pairwise_insertionSort _ _)
        (pairwise_insertionSort _ _)
  constructor
  · intro h
    refine ⟨hsort.mp (congrArg EventChild.dependencyTransactionIds h), ?_⟩
    cases a
    cases b
    simp only [EventChild.lineagePayload, EventChild.mk.injEq] at h ⊢
    tauto
  · intro h
    rw [EventChild.lineagePayload, EventChild.lineagePayload, hsort.mpr h.dependencies, h.fields]

/-! ## Cohorts -/

def isTargetType (type : TransactionType) : Bool := (targetSourceType type).isSome

theorem cohortPolicies_paired : ∀ policy ∈ cohortPolicies,
    isSourceType policy.sourceTransactionType = true ∧
      isSourceType policy.targetTransactionType = false ∧
      targetSourceType policy.targetTransactionType = some policy.sourceTransactionType ∧
      ∀ type ∈ policy.allowedTransactionTypes,
        (isSourceType type → type = policy.sourceTransactionType) ∧
          (isTargetType type → type = policy.targetTransactionType) := by
  decide

structure Cohort (children : List EventChild) (policy : CohortPolicy) : Prop where
  policy_mem : policy ∈ cohortPolicies
  allowed : ∀ child ∈ children, child.transactionType ∈ policy.allowedTransactionTypes
  one_source : (childrenOfType policy.sourceTransactionType children).length = 1
  clean : ∀ child ∈ children, childSemanticFindings children policy child = []

theorem cohortShapeFindings_eq_nil {children : List EventChild} {policy : CohortPolicy}
    (h : cohortShapeFindings children policy = []) :
    (∀ child ∈ children, child.transactionType ∈ policy.allowedTransactionTypes) ∧
      (childrenOfType policy.sourceTransactionType children).length = 1 := by
  simp only [cohortShapeFindings, append_eq_nil_iff, ite_eq_left_iff, ite_eq_right_iff,
    cons_ne_nil, imp_false, not_not, map_eq_nil_iff, filter_eq_nil_iff,
    decide_not, Bool.not_eq_true', decide_eq_false_iff_not] at h
  obtain ⟨⟨hallowed, hsource⟩, _⟩ := h
  refine ⟨hallowed, ?_⟩
  by_contra hlen
  by_cases hnil : childrenOfType policy.sourceTransactionType children = []
  · simp [hnil] at hsource
  · simp [hnil, hlen] at hsource

variable {manifest : ParentManifest}

theorem semanticFindings_eq_nil (h : semanticFindings manifest = []) :
    ∃ policy, Cohort manifest.expectedChildren policy := by
  unfold semanticFindings at h
  cases hpolicy : corporateActionCohortPolicy manifest.corporateActionType with
  | none => simp [hpolicy] at h
  | some policy =>
    simp only [hpolicy, append_eq_nil_iff, flatMap_eq_nil_iff,
      mem_insertionSort] at h
    obtain ⟨hallowed, hone⟩ := cohortShapeFindings_eq_nil h.1
    exact ⟨policy, row?_mem hpolicy, hallowed, hone, h.2⟩

namespace Cohort

variable {children : List EventChild} {policy : CohortPolicy} {child : EventChild}

section CohortFacts

variable (hc : Cohort children policy)

include hc

theorem source_iff (hchild : child ∈ children) :
    isSourceType child.transactionType ↔ child.transactionType = policy.sourceTransactionType := by
  have hp := cohortPolicies_paired policy hc.policy_mem
  refine ⟨(hp.2.2.2 _ (hc.allowed child hchild)).1, fun h => ?_⟩
  rw [h]
  exact hp.1

theorem target_iff (hchild : child ∈ children) :
    isTargetType child.transactionType ↔ child.transactionType = policy.targetTransactionType := by
  have hp := cohortPolicies_paired policy hc.policy_mem
  refine ⟨(hp.2.2.2 _ (hc.allowed child hchild)).2, fun h => ?_⟩
  rw [h, isTargetType, hp.2.2.1]
  rfl

theorem mem_targets :
    child ∈ childrenOfType policy.targetTransactionType children ↔
      child ∈ children ∧ isTargetType child.transactionType := by
  rw [childrenOfType, mem_filter, decide_eq_true_eq]
  exact and_congr_right fun hchild => (hc.target_iff hchild).symm

theorem exists_source :
    ∃ source ∈ children, isSourceType source.transactionType ∧
      ∀ child ∈ children, isSourceType child.transactionType → child = source := by
  obtain ⟨source, hsource⟩ := length_eq_one_iff.mp hc.one_source
  have hmem : ∀ child ∈ children, isSourceType child.transactionType → child = source := by
    intro child hchild htype
    have hin : child ∈ childrenOfType policy.sourceTransactionType children :=
      mem_filter.mpr ⟨hchild, decide_eq_true ((hc.source_iff hchild).mp htype)⟩
    rw [hsource] at hin
    exact mem_singleton.mp hin
  have hself : source ∈ childrenOfType policy.sourceTransactionType children := by
    rw [hsource]
    exact mem_singleton_self source
  have hin := mem_filter.mp hself
  exact ⟨source, hin.1, (hc.source_iff hin.1).mpr (of_decide_eq_true hin.2), hmem⟩

theorem target_dependency {target : EventChild} (htarget : target ∈ children)
    (htype : isTargetType target.transactionType) :
    ∃ source ∈ children, isSourceType source.transactionType ∧
      source.transactionId ∈ target.dependencyTransactionIds := by
  have hp := cohortPolicies_paired policy hc.policy_mem
  have hpolicy := (hc.target_iff htarget).mp htype
  have hclean := hc.clean target htarget
  rw [childSemanticFindings, hpolicy, hp.2.1, hp.2.2.1] at hclean
  have hsources := (append_eq_nil_iff.mp hclean).2
  cases hlist : compatibleSources target policy.sourceTransactionType children with
  | nil => simp [hlist] at hsources
  | cons source rest =>
    have hmem : source ∈ compatibleSources target policy.sourceTransactionType children := by
      rw [hlist]
      exact mem_cons_self
    obtain ⟨hdep, hsourceType⟩ := mem_filter.mp hmem
    obtain ⟨id, hid, hrow⟩ := mem_filterMap.mp hdep
    have hsource : source ∈ children := mem_reverse.mp (row?_mem hrow)
    refine ⟨source, hsource, (hc.source_iff hsource).mpr (of_decide_eq_true hsourceType), ?_⟩
    rwa [row?_key hrow]

theorem overlay_dependencies (hchild : child ∈ children)
    (hsource : isSourceType child.transactionType = false)
    (htarget : targetSourceType child.transactionType = none) :
    hasGovernedNonPositionDependencies child
      (childrenOfType policy.targetTransactionType children)
      (children.filter fun c => isConsiderationType c.transactionType) = true := by
  have hclean := hc.clean child hchild
  rw [childSemanticFindings, hsource, htarget] at hclean
  simp only [Bool.false_eq_true, if_false, nonPositionChildFindings] at hclean
  by_contra hn
  by_cases hrole : nonPositionRole child.transactionType ≠ some child.childRole
  · simp [hrole] at hclean
  · simp [hrole, hn] at hclean

end CohortFacts

end Cohort

/-! ## The order of a cohort -/

/-- An order settles a cohort: the source before the targets, cash after what it pays for, charges
last. -/
structure SettlesInOrder (ordered : List EventChild) : Prop where
  source : ∃ source ∈ ordered, isSourceType source.transactionType ∧
    (∀ child ∈ ordered, isSourceType child.transactionType → child = source) ∧
    ∀ target ∈ ordered, isTargetType target.transactionType → [source, target].Sublist ordered
  cash_consideration : ∀ cash ∈ ordered, cash.transactionType = .cashConsideration →
    ∀ target ∈ ordered, isTargetType target.transactionType → [target, cash].Sublist ordered
  cash_in_lieu : ∀ cash ∈ ordered, cash.transactionType = .cashInLieu →
    ∃ target ∈ ordered, isTargetType target.transactionType ∧
      target.instrumentId = cash.instrumentId ∧ [target, cash].Sublist ordered
  adjustment : ∀ adjustment ∈ ordered, adjustment.transactionType = .adjustment →
    ∃ cash ∈ ordered, isConsiderationType cash.transactionType ∧
      adjustment.dependencyTransactionIds = [cash.transactionId] ∧
      [cash, adjustment].Sublist ordered
  charge : ∀ charge ∈ ordered, charge.transactionType = .fee ∨ charge.transactionType = .tax →
    ∀ child ∈ ordered, isTargetType child.transactionType ∨
      isConsiderationType child.transactionType → [child, charge].Sublist ordered

structure DependencyOrder (children ordered : List EventChild) : Prop where
  ids_nodup : (children.map (·.transactionId)).Nodup
  dependencies_nodup : ∀ child ∈ children, child.dependencyTransactionIds.Nodup
  perm : ordered.Perm children
  before : ∀ child ∈ children, ∀ d ∈ child.dependencyTransactionIds, ∃ other ∈ children,
    other.transactionId = d ∧ [other, child].Sublist ordered

namespace DependencyOrder

variable {children ordered : List EventChild} {policy : CohortPolicy}

section Order

variable (ho : DependencyOrder children ordered)

include ho

theorem mem_iff {child : EventChild} :
    child ∈ ordered ↔ child ∈ children := ho.perm.mem_iff

/-- The child of an id is unique, so what a child names it follows. -/
theorem sublist {child other : EventChild} (hchild : child ∈ children) (hother : other ∈ children)
    (hd : other.transactionId ∈ child.dependencyTransactionIds) :
    [other, child].Sublist ordered := by
  obtain ⟨found, hfound, hid, hsub⟩ := ho.before child hchild _ hd
  rwa [eq_of_key ho.ids_nodup hfound hother hid] at hsub

section OrderedCohort

variable (hc : Cohort children policy)

include hc

theorem source_first :
    ∃ source ∈ ordered, isSourceType source.transactionType ∧
      (∀ child ∈ ordered, isSourceType child.transactionType → child = source) ∧
      ∀ target ∈ ordered, isTargetType target.transactionType →
        [source, target].Sublist ordered := by
  obtain ⟨source, hsource, htype, hone⟩ := hc.exists_source
  refine ⟨source, ho.mem_iff.mpr hsource, htype, fun child hchild => hone child
    (ho.mem_iff.mp hchild), fun target htarget hkind => ?_⟩
  rw [ho.mem_iff] at htarget
  obtain ⟨other, hother, hothertype, hd⟩ := hc.target_dependency htarget hkind
  rw [hone other hother hothertype] at hd
  exact ho.sublist htarget hsource hd

theorem cash_consideration_last {cash target : EventChild} (hcash : cash ∈ children)
    (htype : cash.transactionType = .cashConsideration) (htarget : target ∈ children)
    (hkind : isTargetType target.transactionType) : [target, cash].Sublist ordered := by
  have hall := hc.overlay_dependencies hcash (by rw [htype]; rfl) (by rw [htype]; rfl)
  simp only [hasGovernedNonPositionDependencies, htype, all_eq_true] at hall
  have hd := hall target (hc.mem_targets.mpr ⟨htarget, hkind⟩)
  exact ho.sublist hcash htarget (of_decide_eq_true hd)

theorem cash_in_lieu_after {cash : EventChild} (hcash : cash ∈ children)
    (htype : cash.transactionType = .cashInLieu) :
    ∃ target ∈ ordered, isTargetType target.transactionType ∧
      target.instrumentId = cash.instrumentId ∧ [target, cash].Sublist ordered := by
  have hany := hc.overlay_dependencies hcash (by rw [htype]; rfl) (by rw [htype]; rfl)
  simp only [hasGovernedNonPositionDependencies, htype, any_eq_true] at hany
  obtain ⟨target, htarget, hd⟩ := hany
  obtain ⟨hchild, hkind⟩ := hc.mem_targets.mp htarget
  obtain ⟨hinstrument, hmem⟩ := of_decide_eq_true hd
  exact ⟨target, ho.mem_iff.mpr hchild, hkind, hinstrument, ho.sublist hcash hchild hmem⟩

theorem adjustment_after {adjustment : EventChild} (hadj : adjustment ∈ children)
    (htype : adjustment.transactionType = .adjustment) :
    ∃ cash ∈ ordered, isConsiderationType cash.transactionType ∧
      adjustment.dependencyTransactionIds = [cash.transactionId] ∧
      [cash, adjustment].Sublist ordered := by
  have hone := hc.overlay_dependencies hadj (by rw [htype]; rfl) (by rw [htype]; rfl)
  simp only [hasGovernedNonPositionDependencies, htype, decide_eq_true_eq,
    (ho.dependencies_nodup adjustment hadj).dedup] at hone
  obtain ⟨d, hd⟩ := length_eq_one_iff.mp hone.1
  have hmem : d ∈ adjustment.dependencyTransactionIds := by
    rw [hd]
    exact mem_singleton_self d
  obtain ⟨cash, hcash, rfl⟩ := mem_map.mp (hone.2 hmem)
  obtain ⟨hchild, hkind⟩ := mem_filter.mp hcash
  exact ⟨cash, ho.mem_iff.mpr hchild, hkind, hd, ho.sublist hadj hchild hmem⟩

theorem charge_last {charge child : EventChild} (hcharge : charge ∈ children)
    (htype : charge.transactionType = .fee ∨ charge.transactionType = .tax)
    (hchild : child ∈ children)
    (hkind : isTargetType child.transactionType ∨ isConsiderationType child.transactionType) :
    [child, charge].Sublist ordered := by
  have hterminal : ∀ terminal ∈ childrenOfType policy.targetTransactionType children ++
      children.filter (fun c => isConsiderationType c.transactionType),
      terminal.transactionId ∈ charge.dependencyTransactionIds := by
    rcases htype with h | h <;>
    · have hall := hc.overlay_dependencies hcharge (by rw [h]; rfl) (by rw [h]; rfl)
      simp only [hasGovernedNonPositionDependencies, h, decide_eq_true_eq,
        all_eq_true] at hall
      exact hall.2
  refine ho.sublist hcharge hchild (hterminal child (mem_append.mpr ?_))
  rcases hkind with h | h
  · exact Or.inl (hc.mem_targets.mpr ⟨hchild, h⟩)
  · exact Or.inr (mem_filter.mpr ⟨hchild, h⟩)

theorem settles :
    SettlesInOrder ordered where
  source := ho.source_first hc
  cash_consideration _ hcash htype _ htarget hkind :=
    ho.cash_consideration_last hc (ho.mem_iff.mp hcash) htype (ho.mem_iff.mp htarget) hkind
  cash_in_lieu _ hcash htype := ho.cash_in_lieu_after hc (ho.mem_iff.mp hcash) htype
  adjustment _ hadj htype := ho.adjustment_after hc (ho.mem_iff.mp hadj) htype
  charge _ hcharge htype _ hchild hkind :=
    ho.charge_last hc (ho.mem_iff.mp hcharge) htype (ho.mem_iff.mp hchild) hkind

end OrderedCohort

end Order

end DependencyOrder

/-! ## Observations -/

/-- Children observed or arriving once each, with matching content. -/
def ArrivedAs (observed expected : List EventChild) : Prop :=
  ∃ listed : List EventChild, listed.Perm expected ∧ List.Forall₂ EventChild.Matches observed listed

theorem observedIdentityFindings_eq_nil_iff {observed : List EventChild} :
    observedIdentityFindings observed = [] ↔ (observed.map (·.transactionId)).Nodup := by
  rw [← repeats_eq_nil_iff]
  unfold observedIdentityFindings
  simp [← length_eq_zero_iff]

theorem idsOnlyIn_eq_nil_iff {children others : List EventChild} :
    idsOnlyIn children others = [] ↔
      children.map (·.transactionId) ⊆ others.map (·.transactionId) := by
  rw [idsOnlyIn, sortedIds_eq_nil_iff, filter_eq_nil_iff]
  simp [subset_def]

theorem mismatchedIds_eq_nil_iff {expected observed : List EventChild}
    (hexpected : (expected.map (·.transactionId)).Nodup)
    (hobserved : (observed.map (·.transactionId)).Nodup) :
    mismatchedIds expected observed = [] ↔ ∀ o ∈ observed, ∀ e ∈ expected,
      o.transactionId = e.transactionId → o.Matches e := by
  rw [mismatchedIds, sortedIds_eq_nil_iff, filter_eq_nil_iff]
  simp only [forall_mem_map, decide_eq_true_eq, not_and, not_not]
  constructor
  · intro h o ho e he hid
    have hpayload := h e he (hid ▸ mem_map_of_mem ho)
    have hrow := childById_eq_some hobserved ho
    rw [hid] at hrow
    rw [childById_eq_some hexpected he, hrow] at hpayload
    exact EventChild.lineagePayload_eq_iff.mp (Option.some.inj hpayload).symm
  · intro h e he hid
    obtain ⟨o, ho, hkey⟩ := mem_map.mp hid
    have hrow := childById_eq_some hobserved ho
    rw [hkey] at hrow
    rw [childById_eq_some hexpected he, hrow, Option.map_some, Option.map_some,
      EventChild.lineagePayload_eq_iff.mpr (h o ho e he hkey)]

theorem map_transactionId_of_forall₂ {l₁ l₂ : List EventChild}
    (h : List.Forall₂ EventChild.Matches l₁ l₂) :
    l₁.map (·.transactionId) = l₂.map (·.transactionId) := by
  induction h with
  | nil => rfl
  | cons hab _ ih => rw [map_cons, map_cons, ih, hab.transactionId_eq]

namespace ArrivedAs

variable {observed expected : List EventChild}

theorem ids_perm (h : ArrivedAs observed expected) :
    (observed.map (·.transactionId)).Perm (expected.map (·.transactionId)) := by
  obtain ⟨listed, hperm, hmatches⟩ := h
  rw [map_transactionId_of_forall₂ hmatches]
  exact hperm.map _

theorem of_perm (h : observed.Perm expected) : ArrivedAs observed expected :=
  ⟨observed, h, forall₂_same.mpr fun _ _ => ⟨.refl _, rfl⟩⟩

theorem exists_match (h : ArrivedAs observed expected) {o : EventChild} (ho : o ∈ observed) :
    ∃ e ∈ expected, o.Matches e := by
  obtain ⟨listed, hperm, hmatches⟩ := h
  obtain ⟨e, he, hoe⟩ := exists_mem_of_forall₂ hmatches ho
  exact ⟨e, hperm.mem_iff.mp he, hoe⟩

theorem of_ids (hexpected : (expected.map (·.transactionId)).Nodup)
    (hobserved : (observed.map (·.transactionId)).Nodup)
    (hunexpected : observed.map (·.transactionId) ⊆ expected.map (·.transactionId))
    (hmissing : expected.map (·.transactionId) ⊆ observed.map (·.transactionId))
    (hmatches : ∀ o ∈ observed, ∀ e ∈ expected, o.transactionId = e.transactionId → o.Matches e) :
    ArrivedAs observed expected := by
  have hrow : ∀ o ∈ observed, ∃ e, childById expected o.transactionId = some e ∧ o.Matches e := by
    intro o ho
    obtain ⟨e, he, hid⟩ := mem_map.mp (hunexpected (mem_map_of_mem ho))
    have hfound := childById_eq_some hexpected he
    rw [hid] at hfound
    exact ⟨e, hfound, hmatches o ho e he hid.symm⟩
  have hlisted := forall₂_filterMap hrow
  have hids := map_transactionId_of_forall₂ hlisted
  refine ⟨_, ?_, hlisted⟩
  have hnodup : (observed.filterMap fun o => childById expected o.transactionId).Nodup := by
    rw [hids] at hobserved
    exact hobserved.of_map _
  have hsub : (observed.filterMap fun o => childById expected o.transactionId) ⊆ expected := by
    intro e he
    obtain ⟨o, _, hfound⟩ := mem_filterMap.mp he
    exact mem_reverse.mp (row?_mem hfound)
  refine (hnodup.subperm hsub).perm_of_length_le ?_
  have hlen := (hexpected.subperm hmissing).length_le
  rw [hids, length_map, length_map] at hlen
  exact hlen

end ArrivedAs

/-! ## Readiness -/

section Readiness

variable (definitionDigest : EventChild → String) (contentDigest : ParentManifest → String)

/-- What readiness guarantees of a manifest's children. -/
structure ReadyEvidence (manifest : ParentManifest) (observed ordered : List EventChild) :
    Prop where
  observed_expected : ArrivedAs observed manifest.expectedChildren
  dependencyOrder : DependencyOrder manifest.expectedChildren ordered
  settles : SettlesInOrder ordered

variable {definitionDigest}

theorem manifestFindings_eq_nil (h : manifestFindings definitionDigest manifest = []) :
    (resolveEventGraph definitionDigest manifest.expectedChildren).valid = true ∧
      ∃ policy, Cohort manifest.expectedChildren policy := by
  obtain ⟨hgraph, hsemantic⟩ := append_eq_nil_iff.mp h
  exact ⟨by simpa using hgraph, semanticFindings_eq_nil hsemantic⟩

theorem resolveEventGraph_dependencyOrder {children : List EventChild}
    (h : (resolveEventGraph definitionDigest children).valid = true) :
    DependencyOrder children (resolveEventGraph definitionDigest children).orderedChildren := by
  obtain ⟨hperm, hbefore⟩ := resolveEventGraph_ordered h
  have hg := (resolveDirectedEventGraph_valid_iff _).mp h
  refine ⟨resolveEventGraph_ids_nodup h, fun child hchild => ?_, hperm, hbefore⟩
  exact hg.dependencies_nodup _ (mem_map_of_mem hchild)

variable (definitionDigest)

theorem evaluateManifestReadiness_ready {manifest : Option ParentManifest}
    {observed : List EventChild}
    (h : (evaluateManifestReadiness definitionDigest contentDigest manifest observed).status =
      .ready) :
    ∃ m, manifest = some m ∧ manifestFindings definitionDigest m = [] ∧
      observedIdentityFindings observed = [] ∧ idsOnlyIn observed m.expectedChildren = [] ∧
      mismatchedIds m.expectedChildren observed = [] ∧
      idsOnlyIn m.expectedChildren observed = [] ∧
      (evaluateManifestReadiness definitionDigest contentDigest manifest observed).orderedChildren =
        (resolveEventGraph definitionDigest m.expectedChildren).orderedChildren := by
  cases manifest with
  | none => simp [evaluateManifestReadiness, notReady] at h
  | some m =>
    refine ⟨m, rfl, ?_⟩
    by_cases hcomplete : m.completionDeclared = false
    · simp [evaluateManifestReadiness, notReady, hcomplete] at h
    by_cases hfindings : manifestFindings definitionDigest m = []
    · by_cases hidentity : observedIdentityFindings observed = []
      · simp only [evaluateManifestReadiness, hcomplete, hfindings, hidentity, ne_eq,
          not_true_eq_false, if_false, observedReadiness] at h ⊢
        by_cases hunexpected : idsOnlyIn observed m.expectedChildren = []
        · by_cases hmismatched : mismatchedIds m.expectedChildren observed = []
          · by_cases hmissing : idsOnlyIn m.expectedChildren observed = []
            · simp [hunexpected, hmismatched, hmissing]
            · simp [hunexpected, hmismatched, hmissing, notReady] at h
          · simp [hmismatched, notReady] at h
        · simp [hunexpected, notReady] at h
      · simp [evaluateManifestReadiness, notReady, hcomplete, hfindings, hidentity] at h
    · simp [evaluateManifestReadiness, notReady, hcomplete, hfindings] at h

/-- A ready evaluation is sound: the observed children are the expected ones, and the order follows
every dependency and settles the cohort. -/
theorem manifest_readiness_sound (manifest : Option ParentManifest) (observed : List EventChild)
    (h : (evaluateManifestReadiness definitionDigest contentDigest manifest observed).status =
      .ready) :
    ∃ m, manifest = some m ∧ ReadyEvidence m observed
      (evaluateManifestReadiness definitionDigest contentDigest manifest
        observed).orderedChildren := by
  obtain ⟨m, hm, hfindings, hidentity, hunexpected, hmismatched, hmissing, hordered⟩ :=
    evaluateManifestReadiness_ready definitionDigest contentDigest h
  obtain ⟨hvalid, policy, hcohort⟩ := manifestFindings_eq_nil hfindings
  have horder := resolveEventGraph_dependencyOrder hvalid
  have hobserved := observedIdentityFindings_eq_nil_iff.mp hidentity
  have harrived : ArrivedAs observed m.expectedChildren :=
    .of_ids horder.ids_nodup hobserved (idsOnlyIn_eq_nil_iff.mp hunexpected)
      (idsOnlyIn_eq_nil_iff.mp hmissing)
      ((mismatchedIds_eq_nil_iff horder.ids_nodup hobserved).mp hmismatched)
  rw [hordered]
  exact ⟨m, hm, harrived, horder, horder.settles hcohort⟩

def spinOffChildren : List EventChild :=
  [{ transactionId := "FEE", transactionType := .fee, childRole := .charge,
      dependencyTransactionIds := ["IN", "CASH", "LIEU"] },
    { transactionId := "ADJ", transactionType := .adjustment, childRole := .cashSettlement,
      dependencyTransactionIds := ["CASH"] },
    { transactionId := "LIEU", transactionType := .cashInLieu, childRole := .cashInLieu,
      dependencyTransactionIds := ["IN"], instrumentId := some "NEW" },
    { transactionId := "CASH", transactionType := .cashConsideration,
      childRole := .cashConsideration, dependencyTransactionIds := ["IN"] },
    { transactionId := "IN", transactionType := .spinIn, childRole := .targetPositionAdd,
      dependencyTransactionIds := ["OUT"], instrumentId := some "NEW",
      sourceInstrumentId := some "OLD", targetInstrumentId := some "NEW" },
    { transactionId := "OUT", transactionType := .spinOff, childRole := .sourcePositionReduce,
      instrumentId := some "OLD", sourceInstrumentId := some "OLD" }]

def spinOffManifest : ParentManifest where
  corporateActionEventId := "CA"
  tenantId := "T"
  legalBookId := "B"
  portfolioId := "P"
  linkedTransactionGroupId := "G"
  parentEventReference := "REF"
  corporateActionType := "spin_off"
  version := 1
  completionDeclared := true
  expectedChildren := spinOffChildren
  sourceReference :=
    { sourceSystem := "SYS", sourceRecordId := "REC", sourceRevision := "1"
      sourceContentHash := "0123456789abcdef0123456789abcdef0123456789abcdef0123456789abcdef"
      observedAt := 0
      nonblank := by decide +kernel
      digest := by decide +kernel }

theorem manifest_readiness_sound_spinOff :
    (evaluateManifestReadiness (·.transactionId) (·.corporateActionEventId) (some spinOffManifest)
        spinOffChildren.reverse).status = .ready ∧
      ∃ m, some spinOffManifest = some m ∧ ReadyEvidence m spinOffChildren.reverse
        (evaluateManifestReadiness (·.transactionId) (·.corporateActionEventId)
          (some spinOffManifest) spinOffChildren.reverse).orderedChildren :=
  ⟨by decide +kernel, manifest_readiness_sound _ _ _ _ (by decide +kernel)⟩

/-! ## Arrival -/

/-- Of an arrival every part has distinct ids, is expected and matches. -/
theorem ArrivedAs.part {expected arrived part : List EventChild} (h : ArrivedAs arrived expected)
    (hids : (expected.map (·.transactionId)).Nodup) (hpart : part.Sublist arrived) :
    observedIdentityFindings part = [] ∧ idsOnlyIn part expected = [] ∧
      mismatchedIds expected part = [] := by
  have hpartids : (part.map (·.transactionId)).Nodup :=
    (h.ids_perm.nodup_iff.mpr hids).sublist (hpart.map _)
  refine ⟨observedIdentityFindings_eq_nil_iff.mpr hpartids, idsOnlyIn_eq_nil_iff.mpr ?_,
    (mismatchedIds_eq_nil_iff hids hpartids).mpr fun o ho e he hid => ?_⟩
  · exact List.Subset.trans (hpart.map _).subset h.ids_perm.subset
  · obtain ⟨found, hfound, hmatch⟩ := h.exists_match (hpart.subset ho)
    have hsame : found = e := eq_of_key hids hfound he (hmatch.transactionId_eq.symm.trans hid)
    exact hsame ▸ hmatch

theorem ArrivedAs.missing_iff {expected arrived part : List EventChild}
    (h : ArrivedAs arrived expected) (hids : (expected.map (·.transactionId)).Nodup)
    (hpart : part.Sublist arrived) : idsOnlyIn expected part = [] ↔ part = arrived := by
  rw [idsOnlyIn_eq_nil_iff]
  constructor
  · intro hsub
    have hlen := (hids.subperm hsub).length_le
    rw [← h.ids_perm.length_eq, length_map, length_map] at hlen
    exact hpart.eq_of_length_le hlen
  · rintro rfl
    exact h.ids_perm.symm.subset

theorem evaluateManifestReadiness_part {m : ParentManifest}
    (hcomplete : m.completionDeclared = true)
    (hfindings : manifestFindings definitionDigest m = []) {arrived part : List EventChild}
    (h : ArrivedAs arrived m.expectedChildren) (hpart : part.Sublist arrived) :
    evaluateManifestReadiness definitionDigest contentDigest (some m) part =
      if part = arrived then
        { status := .ready
          orderedChildren := (resolveEventGraph definitionDigest m.expectedChildren).orderedChildren
          findings := []
          manifestContentHash := some (m.contentHash contentDigest) }
      else
        { status := .awaitingChildren
          orderedChildren := []
          findings := [⟨.missingExpectedChild, idsOnlyIn m.expectedChildren part, []⟩]
          manifestContentHash := some (m.contentHash contentDigest) } := by
  have hids := (resolveEventGraph_dependencyOrder (manifestFindings_eq_nil hfindings).1).ids_nodup
  obtain ⟨hidentity, hunexpected, hmismatched⟩ := h.part hids hpart
  have hmissing := h.missing_iff hids hpart
  simp only [evaluateManifestReadiness, hcomplete, hfindings, hidentity, observedReadiness,
    hunexpected, hmismatched, ne_eq, not_true_eq_false, if_false, or_self, hmissing]
  by_cases hall : part = arrived
  · simp [hall]
  · simp [hall, notReady]

/-- Readiness does not depend on the order of arrival: a strict part of the children awaits exactly
the rest, and all of them are ready with one order and one hash. -/
theorem manifest_readiness_arrival (m : ParentManifest) (hcomplete : m.completionDeclared = true)
    (hfindings : manifestFindings definitionDigest m = []) :
    ∃ (ordered : List EventChild) (hash : String), ∀ arrived : List EventChild,
      ArrivedAs arrived m.expectedChildren →
      (∀ part, part <+: arrived → part ≠ arrived → ∃ missing : List String,
        (evaluateManifestReadiness definitionDigest contentDigest (some m) part).status =
            .awaitingChildren ∧
          (evaluateManifestReadiness definitionDigest contentDigest (some m) part).findings =
            [⟨.missingExpectedChild, missing, []⟩] ∧
          missing.Nodup ∧
          ∀ id, id ∈ missing ↔ id ∈ m.expectedChildren.map (·.transactionId) ∧
            id ∉ part.map (·.transactionId)) ∧
      evaluateManifestReadiness definitionDigest contentDigest (some m) arrived =
        { status := .ready
          orderedChildren := ordered
          findings := []
          manifestContentHash := some hash } := by
  refine ⟨(resolveEventGraph definitionDigest m.expectedChildren).orderedChildren,
    m.contentHash contentDigest, fun arrived h => ⟨fun part hpart hstrict => ?_, ?_⟩⟩
  · rw [evaluateManifestReadiness_part definitionDigest contentDigest hcomplete hfindings h
      hpart.sublist, if_neg hstrict]
    refine ⟨_, rfl, rfl, sortedIds_nodup _, fun id => ?_⟩
    rw [idsOnlyIn, mem_sortedIds, mem_filter, decide_eq_true_eq]
  · rw [evaluateManifestReadiness_part definitionDigest contentDigest hcomplete hfindings h
      (List.Sublist.refl _), if_pos rfl]

theorem manifest_readiness_arrival_spinOff :
    (spinOffManifest.completionDeclared = true ∧
      manifestFindings (·.transactionId) spinOffManifest = [] ∧
      ArrivedAs spinOffChildren.reverse spinOffManifest.expectedChildren) ∧
    ∃ (ordered : List EventChild) (hash : String), ∀ arrived : List EventChild,
      ArrivedAs arrived spinOffManifest.expectedChildren →
      (∀ part, part <+: arrived → part ≠ arrived → ∃ missing : List String,
        (evaluateManifestReadiness (·.transactionId) (·.corporateActionEventId)
            (some spinOffManifest) part).status = .awaitingChildren ∧
          (evaluateManifestReadiness (·.transactionId) (·.corporateActionEventId)
            (some spinOffManifest) part).findings = [⟨.missingExpectedChild, missing, []⟩] ∧
          missing.Nodup ∧
          ∀ id, id ∈ missing ↔ id ∈ spinOffManifest.expectedChildren.map (·.transactionId) ∧
            id ∉ part.map (·.transactionId)) ∧
      evaluateManifestReadiness (·.transactionId) (·.corporateActionEventId)
          (some spinOffManifest) arrived =
        { status := .ready
          orderedChildren := ordered
          findings := []
          manifestContentHash := some hash } :=
  ⟨⟨rfl, by decide +kernel, .of_perm (reverse_perm _)⟩,
    manifest_readiness_arrival _ _ spinOffManifest rfl (by decide +kernel)⟩

end Readiness

end LotusCore
