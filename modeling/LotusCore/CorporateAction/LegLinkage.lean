import LotusCore.Data.Table
import LotusCore.Transaction.Types
import Mathlib.Data.List.Sort

/-!
# Reciprocal legs of quantity transfers

A merger, an exchange or a replacement is booked as a source leg and a target leg that name each
other. The reconciliation looks at each source leg and what it names, and then at the target legs
that no source leg accounts for.

* `reconcileCorporateActionLegLinkage`: the findings.
* `LinkedTo`: a source leg and a target leg that name each other and each other's instruments;
  `DistinctIds.checkSource_spec`: a source leg without a finding is linked.
* `DistinctIds.reconcile_perm`: the order of the transactions has no influence.
* **`leg_linkage_exact_iff`**: having no finding means being reciprocal exactly when a target leg
  that no source leg names shows elsewhere.
-/

namespace LotusCore.CorporateAction

open List

/-- What the reconciliation reads of a `BookedTransaction`. -/
structure BookedLeg where
  transactionId : String
  transactionType : String
  instrumentId : String
  sourceTransactionReference : Option String := none
  targetTransactionReference : Option String := none
  sourceInstrumentId : Option String := none
  targetInstrumentId : Option String := none
  deriving DecidableEq

variable (leg : BookedLeg)

def BookedLeg.id : String := strip leg.transactionId

def normalizeCorporateActionTransactionType (transactionType : String) : String :=
  upper (strip transactionType)

/-- `QUANTITY_TRANSFER_CORPORATE_ACTION_PAIRS`. -/
def quantityTransferPairs : List (String × String) :=
  [("MERGER_OUT", "MERGER_IN"), ("EXCHANGE_OUT", "EXCHANGE_IN"),
   ("REPLACEMENT_OUT", "REPLACEMENT_IN")]

def expectedTargetType : Option String :=
  quantityTransferPairs.lookup (normalizeCorporateActionTransactionType leg.transactionType)

def BookedLeg.IsTarget : Prop :=
  normalizeCorporateActionTransactionType leg.transactionType ∈ quantityTransferPairs.map Prod.snd
  deriving Decidable

def normalizedReference (value : Option String) : Option String :=
  let normalized := strip (value.getD "")
  if normalized = "" then none else some normalized

/-! ## Findings -/

inductive CorporateActionLegLinkageFindingType
  | missingReciprocalLeg
  | transactionReferenceMismatch
  | instrumentReferenceMismatch
  | unexpectedReciprocalType
  deriving Repr, DecidableEq

structure CorporateActionLegLinkageFinding where
  findingType : CorporateActionLegLinkageFindingType
  sourceTransactionId : String
  targetTransactionId : String
  field : String
  expectedValue : String
  observedValue : Option String
  deriving Repr, DecidableEq

/-- The dictionary of the transactions by identity, in which a repeated identity is left without a
transaction. -/
def indexUnambiguousTransactions (transactions : List BookedLeg) :
    List (String × Option BookedLeg) :=
  transactions.foldl (fun index transaction =>
    if transaction.id = "" then index
    else if transaction.id ∈ index.map Prod.fst then
      index.map fun entry => if entry.1 = transaction.id then (entry.1, none) else entry
    else index ++ [(transaction.id, some transaction)]) []

def orderedTransactions (transactions : List BookedLeg) : List BookedLeg :=
  transactions.insertionSort fun a b => a.id ≤ b.id

/-- The transactions with an identity of their own, in the order of the identities. -/
def transactionById (transactions : List BookedLeg) : List (String × BookedLeg) :=
  (indexUnambiguousTransactions (orderedTransactions transactions)).filterMap fun entry =>
    entry.2.map fun transaction => (entry.1, transaction)

variable (byId : List (String × BookedLeg))

/-- `transaction_by_id.get`. -/
def lookup (id : String) : Option BookedLeg :=
  (Table.row? Prod.fst byId id).map Prod.snd

def compareLinkageField (source : BookedLeg) (targetTransactionId field expectedValue : String)
    (observedValue : Option String) (findingType : CorporateActionLegLinkageFindingType) :
    List CorporateActionLegLinkageFinding :=
  if observedValue = some expectedValue then []
  else [⟨findingType, source.id, targetTransactionId, field, expectedValue, observedValue⟩]

def pairFindings (source target : BookedLeg) (expectedType targetId : String) :
    List CorporateActionLegLinkageFinding :=
  let targetType := normalizeCorporateActionTransactionType target.transactionType
  (if targetType ≠ expectedType then
    [⟨.unexpectedReciprocalType, source.id, targetId, "transaction_type", expectedType,
      some targetType⟩]
  else []) ++
  compareLinkageField source targetId "source_transaction_reference" source.id
    (normalizedReference target.sourceTransactionReference) .transactionReferenceMismatch ++
  compareLinkageField source targetId "source_instrument_id" (strip source.instrumentId)
    (normalizedReference source.sourceInstrumentId) .instrumentReferenceMismatch ++
  compareLinkageField source targetId "source_instrument_id" (strip source.instrumentId)
    (normalizedReference target.sourceInstrumentId) .instrumentReferenceMismatch ++
  compareLinkageField source targetId "target_instrument_id" (strip target.instrumentId)
    (normalizedReference source.targetInstrumentId) .instrumentReferenceMismatch ++
  compareLinkageField source targetId "target_instrument_id" (strip target.instrumentId)
    (normalizedReference target.targetInstrumentId) .instrumentReferenceMismatch

/-- One pass of the loop over the sources: what is found, and whether the source is accounted
for. -/
def checkSource (source : BookedLeg) : List CorporateActionLegLinkageFinding × Option String :=
  match expectedTargetType source with
  | none => ([], none)
  | some expectedType =>
    match normalizedReference source.targetTransactionReference with
    | none => ([⟨.missingReciprocalLeg, source.id, "", "target_transaction_reference",
        "persisted target transaction reference", none⟩], none)
    | some targetId =>
      match lookup byId targetId with
      | none => ([⟨.missingReciprocalLeg, source.id, targetId, "target_transaction_reference",
          targetId, none⟩], none)
      | some target => (pairFindings source target expectedType targetId, some source.id)

def targetFindings (referencedSourceIds : List String) (target : BookedLeg)
    : List CorporateActionLegLinkageFinding :=
  if ¬ target.IsTarget then []
  else
    match normalizedReference target.sourceTransactionReference with
    | none => []
    | some sourceId =>
      if sourceId ∈ referencedSourceIds then []
      else
        let reciprocalSource := lookup byId sourceId
        [⟨if reciprocalSource.isNone then .missingReciprocalLeg else .transactionReferenceMismatch,
          sourceId, target.id, "target_transaction_reference", target.id,
          reciprocalSource.bind fun source =>
            normalizedReference source.targetTransactionReference⟩]

def reconcileCorporateActionLegLinkage (transactions : List BookedLeg) :
    List CorporateActionLegLinkageFinding :=
  let byId := transactionById transactions
  let checked := byId.map fun entry => checkSource byId entry.2
  let referencedSourceIds := checked.filterMap Prod.snd
  checked.flatMap Prod.fst ++
    byId.flatMap fun entry => targetFindings byId referencedSourceIds entry.2

/-! ## What the findings should say -/

/-- A source leg and a target leg of its paired type that name each other, with all four references
to their instruments. -/
structure LinkedTo (source target : BookedLeg) : Prop where
  type_eq : expectedTargetType source =
    some (normalizeCorporateActionTransactionType target.transactionType)
  names_target : normalizedReference source.targetTransactionReference = some target.id
  names_back : normalizedReference target.sourceTransactionReference = some source.id
  source_instrument : normalizedReference source.sourceInstrumentId =
    some (strip source.instrumentId)
  target_source_instrument :
    normalizedReference target.sourceInstrumentId = some (strip source.instrumentId)
  source_target_instrument :
    normalizedReference source.targetInstrumentId = some (strip target.instrumentId)
  target_instrument : normalizedReference target.targetInstrumentId =
    some (strip target.instrumentId)

def BookedLeg.IsSource : Prop := (expectedTargetType leg).isSome
  deriving Decidable

/-- The source leg names the target leg. -/
def Names (source target : BookedLeg) : Prop :=
  source.IsSource ∧ normalizedReference source.targetTransactionReference = some target.id
  deriving Decidable

variable (transactions : List BookedLeg)

/-- Every source leg is linked to some target leg. -/
def SourcesLinked : Prop :=
  ∀ source ∈ transactions, source.IsSource → ∃ target ∈ transactions, LinkedTo source target

/-- Every source leg is linked and every target leg is named by exactly one source leg. -/
def Reciprocal : Prop :=
  SourcesLinked transactions ∧
    ∀ target ∈ transactions, target.IsTarget →
      ∃! source, source ∈ transactions ∧ Names source target

/-- The reference of a target leg is a source leg of the list, or there is none. -/
def AccountedFor (target : BookedLeg) : Prop :=
  ∀ sourceId ∈ normalizedReference target.sourceTransactionReference,
    ∃ source ∈ transactions, source.IsSource ∧ source.id = sourceId

/-- A target leg that no source leg names does not stand among legs that are all in order: some
source leg is not linked, or some target leg names no source leg. -/
def OrphansShow : Prop :=
  (∃ target ∈ transactions, target.IsTarget ∧ ∀ source ∈ transactions, ¬ Names source target) →
    ¬ SourcesLinked transactions ∨
      ∃ target ∈ transactions, target.IsTarget ∧ ¬ AccountedFor transactions target

/-! ## The dictionary -/

section Dictionary

variable {transactions} {l : List BookedLeg}

theorem indexUnambiguousTransactions_eq (hids : (l.map BookedLeg.id).Nodup)
    (hblank : ∀ t ∈ l, t.id ≠ "") :
    indexUnambiguousTransactions l = l.map fun t => (t.id, some t) := by
  have hloop : ∀ (l : List BookedLeg) (index : List (String × Option BookedLeg)),
      (l.map BookedLeg.id).Nodup → (∀ t ∈ l, t.id ≠ "" ∧ t.id ∉ index.map Prod.fst) →
      l.foldl (fun index transaction =>
        if transaction.id = "" then index
        else if transaction.id ∈ index.map Prod.fst then
          index.map fun entry => if entry.1 = transaction.id then (entry.1, none) else entry
        else index ++ [(transaction.id, some transaction)]) index =
      index ++ l.map fun t => (t.id, some t) := by
    intro l
    induction l with
    | nil => simp
    | cons t rest ih =>
      intro index hids hfresh
      obtain ⟨ht, hrest⟩ := nodup_cons.mp hids
      obtain ⟨hblank, hnew⟩ := hfresh t (by simp)
      rw [foldl_cons, if_neg hblank, if_neg hnew, ih _ hrest]
      · simp
      · intro u hu
        obtain ⟨hublank, hunew⟩ := hfresh u (mem_cons_of_mem _ hu)
        have hne : u.id ≠ t.id := fun h => ht (h ▸ mem_map_of_mem hu)
        exact ⟨hublank, by simpa [hne] using hunew⟩
  exact hloop l [] hids fun t ht => ⟨hblank t ht, by simp⟩

theorem orderedTransactions_perm (l : List BookedLeg) : (orderedTransactions l).Perm l :=
  perm_insertionSort _ _

/-- A list of legs whose identities are distinct and not blank. -/
structure DistinctIds (l : List BookedLeg) : Prop where
  nodup : (l.map BookedLeg.id).Nodup
  nonblank : ∀ t ∈ l, t.id ≠ ""

theorem DistinctIds.perm {l' : List BookedLeg} (h : DistinctIds l) (hperm : l'.Perm l) :
    DistinctIds l' where
  nodup := (hperm.map _).nodup_iff.mpr h.nodup
  nonblank := fun t ht => h.nonblank t (hperm.mem_iff.mp ht)

theorem DistinctIds.eq_of_id (h : DistinctIds l) {a b : BookedLeg} (ha : a ∈ l) (hb : b ∈ l)
    (hid : a.id = b.id) : a = b := inj_on_of_nodup_map h.nodup ha hb hid

theorem DistinctIds.transactionById_eq (h : DistinctIds l) :
    transactionById l = (orderedTransactions l).map fun t => (t.id, t) := by
  have hordered := h.perm (orderedTransactions_perm l)
  rw [transactionById, indexUnambiguousTransactions_eq hordered.nodup hordered.nonblank,
    filterMap_map, ← filterMap_eq_map]
  rfl

theorem DistinctIds.mem_transactionById (h : DistinctIds l) {entry : String × BookedLeg} :
    entry ∈ transactionById l ↔ ∃ t ∈ l, (t.id, t) = entry := by
  simp only [h.transactionById_eq, mem_map, (orderedTransactions_perm l).mem_iff]

theorem DistinctIds.lookup_eq_some (h : DistinctIds l) {id : String} {t : BookedLeg} :
    lookup (transactionById l) id = some t ↔ t ∈ l ∧ t.id = id := by
  have hordered := h.perm (orderedTransactions_perm l)
  have hlookup : lookup (transactionById l) id =
      Table.row? BookedLeg.id (orderedTransactions l) id := by
    rw [lookup, h.transactionById_eq, Table.row?, List.find?_map, Option.map_map]
    exact Option.map_id'
  rw [hlookup, ← (orderedTransactions_perm l).mem_iff]
  constructor
  · exact fun hrow => ⟨Table.row?_mem hrow, Table.row?_key hrow⟩
  · rintro ⟨ht, rfl⟩
    exact Table.row?_eq_some hordered.nodup ht

/-- **The order of the transactions** has no influence on the findings. -/
theorem DistinctIds.reconcile_perm {l' : List BookedLeg} (h : DistinctIds l) (hperm : l'.Perm l) :
    reconcileCorporateActionLegLinkage l' = reconcileCorporateActionLegLinkage l := by
  have hsorted : ∀ l : List BookedLeg, (orderedTransactions l).Pairwise fun a b => a.id ≤ b.id :=
    fun l => pairwise_insertionSort _ _
  have hordered : orderedTransactions l' = orderedTransactions l := by
    refine List.Perm.eq_of_pairwise ?_ (hsorted l') (hsorted l)
      ((orderedTransactions_perm l').trans (hperm.trans (orderedTransactions_perm l).symm))
    intro a b ha hb hab hba
    exact h.eq_of_id (hperm.mem_iff.mp ((orderedTransactions_perm l').mem_iff.mp ha))
      ((orderedTransactions_perm l).mem_iff.mp hb) (le_antisymm hab hba)
  have hbyId : transactionById l' = transactionById l := by
    rw [transactionById, transactionById, hordered]
  rw [reconcileCorporateActionLegLinkage, reconcileCorporateActionLegLinkage, hbyId]

end Dictionary

/-! ## Each leg -/

section Legs

variable {transactions} {l : List BookedLeg} {source target : BookedLeg}

theorem compareLinkageField_eq_nil {targetId field expected : String} {observed : Option String}
    {findingType : CorporateActionLegLinkageFindingType} :
    compareLinkageField source targetId field expected observed findingType = [] ↔
      observed = some expected := by
  unfold compareLinkageField
  split_ifs with h
  · simp [h]
  · simp [h]

theorem pairFindings_eq_nil {expectedType : String}
    (htype : expectedTargetType source = some expectedType)
    (hname : normalizedReference source.targetTransactionReference = some target.id) :
    pairFindings source target expectedType target.id = [] ↔ LinkedTo source target := by
  simp only [pairFindings, append_eq_nil_iff, compareLinkageField_eq_nil, and_assoc]
  constructor
  · rintro ⟨ht, hback, hs, hts, hst, htt⟩
    have heq : normalizeCorporateActionTransactionType target.transactionType = expectedType := by
      by_contra hne
      rw [if_pos hne] at ht
      cases ht
    exact ⟨by rw [htype, heq], hname, hback, hs, hts, hst, htt⟩
  · intro h
    have heq : expectedType = normalizeCorporateActionTransactionType target.transactionType :=
      Option.some.inj (htype.symm.trans h.type_eq)
    exact ⟨by simp [heq], h.names_back, h.source_instrument, h.target_source_instrument,
      h.source_target_instrument, h.target_instrument⟩

theorem DistinctIds.checkSource_spec (h : DistinctIds l) (source : BookedLeg) :
    ((checkSource (transactionById l) source).1 = [] ↔
      (source.IsSource → ∃ target ∈ l, LinkedTo source target)) ∧
    ∀ id, (checkSource (transactionById l) source).2 = some id ↔
      source.id = id ∧ ∃ target ∈ l, Names source target := by
  unfold checkSource
  cases htype : expectedTargetType source with
  | none =>
    have hnot : ¬ source.IsSource := by simp [BookedLeg.IsSource, htype]
    simp [hnot, Names]
  | some expectedType =>
    have hsource : source.IsSource := by simp [BookedLeg.IsSource, htype]
    cases href : normalizedReference source.targetTransactionReference with
    | none =>
      refine ⟨⟨fun h => by simp at h, fun hlinked => ?_⟩, fun id => ?_⟩
      · obtain ⟨target, -, hlink⟩ := hlinked hsource
        have := href.symm.trans hlink.names_target
        cases this
      · simp [Names, href]
    | some targetId =>
      cases hfound : lookup (transactionById l) targetId with
      | none =>
        have hmissing : ∀ target ∈ l, target.id ≠ targetId := fun target ht hid => by
          rw [h.lookup_eq_some.mpr ⟨ht, hid⟩] at hfound
          cases hfound
        simp only [hfound]
        refine ⟨⟨fun h => by simp at h, fun hlinked => ?_⟩, fun id => ?_⟩
        · obtain ⟨target, ht, hlink⟩ := hlinked hsource
          exact absurd (Option.some.inj (href.symm.trans hlink.names_target)).symm
            (hmissing target ht)
        · simp only [reduceCtorEq, false_iff, not_and, not_exists]
          rintro - target ht ⟨-, hname⟩
          exact hmissing target ht (Option.some.inj (href.symm.trans hname)).symm
      | some target =>
        obtain ⟨ht, rfl⟩ := h.lookup_eq_some.mp hfound
        simp only [hfound]
        rw [pairFindings_eq_nil htype href]
        refine ⟨⟨fun hlink _ => ⟨target, ht, hlink⟩, fun hlinked => ?_⟩, fun id => ?_⟩
        · obtain ⟨other, hother, hlink⟩ := hlinked hsource
          have hid : other.id = target.id :=
            (Option.some.inj (href.symm.trans hlink.names_target)).symm
          rwa [← h.eq_of_id hother ht hid]
        · simp only [Option.some.injEq]
          exact ⟨fun hid => ⟨hid, target, ht, hsource, href⟩, And.left⟩

theorem targetFindings_eq_nil {byId : List (String × BookedLeg)} {referenced : List String} :
    targetFindings byId referenced target = [] ↔ (target.IsTarget →
      ∀ sourceId ∈ normalizedReference target.sourceTransactionReference,
        sourceId ∈ referenced) := by
  unfold targetFindings
  by_cases htarget : target.IsTarget
  · rw [if_neg (not_not.mpr htarget)]
    cases href : normalizedReference target.sourceTransactionReference with
    | none => simp
    | some sourceId =>
      by_cases hmem : sourceId ∈ referenced
      · simp [hmem]
      · simp [hmem, htarget]
  · rw [if_pos htarget]
    simp [htarget]

end Legs

/-! ## The whole list -/

section Whole

variable {transactions}

section Distinct

variable (h : DistinctIds transactions)

include h

theorem DistinctIds.mem_referenced (hlinked : SourcesLinked transactions) {sourceId : String} :
    sourceId ∈ ((transactionById transactions).map fun entry =>
        checkSource (transactionById transactions) entry.2).filterMap Prod.snd ↔
      ∃ source ∈ transactions, source.IsSource ∧ source.id = sourceId := by
  rw [mem_filterMap]
  constructor
  · rintro ⟨result, hresult, hid⟩
    obtain ⟨entry, hentry, rfl⟩ := mem_map.mp hresult
    obtain ⟨source, hsource, rfl⟩ := h.mem_transactionById.mp hentry
    obtain ⟨hid, target, -, hnames⟩ := ((h.checkSource_spec source).2 sourceId).mp hid
    exact ⟨source, hsource, hnames.1, hid⟩
  · rintro ⟨source, hsource, htype, hid⟩
    obtain ⟨target, ht, hlink⟩ := hlinked source hsource htype
    refine ⟨_, mem_map_of_mem (h.mem_transactionById.mpr ⟨source, hsource, rfl⟩), ?_⟩
    exact ((h.checkSource_spec source).2 sourceId).mpr ⟨hid, target, ht, htype, hlink.names_target⟩

theorem DistinctIds.reconcile_eq_nil :
    reconcileCorporateActionLegLinkage transactions = [] ↔ SourcesLinked transactions ∧
      ∀ target ∈ transactions, target.IsTarget → AccountedFor transactions target := by
  have hmem : ∀ p : BookedLeg → Prop, (∀ entry ∈ transactionById transactions, p entry.2) ↔
      ∀ t ∈ transactions, p t := by
    intro p
    constructor
    · exact fun hall t ht => hall (t.id, t) (h.mem_transactionById.mpr ⟨t, ht, rfl⟩)
    · intro hall entry hentry
      obtain ⟨t, ht, rfl⟩ := h.mem_transactionById.mp hentry
      exact hall t ht
  have hsources : (∀ entry ∈ transactionById transactions,
      (checkSource (transactionById transactions) entry.2).1 = []) ↔ SourcesLinked transactions :=
    (hmem fun t => (checkSource (transactionById transactions) t).1 = []).trans
      (forall₂_congr fun t _ => (h.checkSource_spec t).1)
  simp only [reconcileCorporateActionLegLinkage, append_eq_nil_iff, flatMap_eq_nil_iff,
    forall_mem_map, targetFindings_eq_nil]
  rw [hsources]
  refine and_congr_right fun hlinked => ?_
  refine (hmem fun t => t.IsTarget → ∀ sourceId ∈ normalizedReference t.sourceTransactionReference,
    sourceId ∈ _).trans ?_
  refine forall₂_congr fun t _ => forall_congr' fun _ => forall₂_congr fun sourceId _ => ?_
  exact h.mem_referenced hlinked

theorem DistinctIds.eq_of_names (hlinked : SourcesLinked transactions) {a b target : BookedLeg}
    (ha : a ∈ transactions) (hb : b ∈ transactions) (ht : target ∈ transactions)
    (hna : Names a target) (hnb : Names b target) : a = b := by
  have hback : ∀ s ∈ transactions, Names s target →
      normalizedReference target.sourceTransactionReference = some s.id := fun s hs hn => by
    obtain ⟨t, htm, hlink⟩ := hlinked s hs hn.1
    have hid : t.id = target.id := Option.some.inj (hlink.names_target.symm.trans hn.2)
    rw [← h.eq_of_id htm ht hid]
    exact hlink.names_back
  exact h.eq_of_id ha hb (Option.some.inj ((hback a ha hna).symm.trans (hback b hb hnb)))

theorem DistinctIds.reciprocal_iff :
    Reciprocal transactions ↔ SourcesLinked transactions ∧
      ∀ target ∈ transactions, target.IsTarget → ∃ source ∈ transactions, Names source target := by
  refine and_congr_right fun hlinked => forall₂_congr fun target ht => forall_congr' fun _ => ?_
  constructor
  · rintro ⟨source, hsource, -⟩
    exact ⟨source, hsource⟩
  · rintro ⟨source, hsource, hnames⟩
    exact ⟨source, ⟨hsource, hnames⟩, fun other hother =>
      h.eq_of_names hlinked hother.1 hsource ht hother.2 hnames⟩

theorem Reciprocal.accountedFor (hr : Reciprocal transactions) {target : BookedLeg}
    (ht : target ∈ transactions) (htype : target.IsTarget) : AccountedFor transactions target := by
  obtain ⟨source, ⟨hsource, hnames⟩, -⟩ := hr.2 target ht htype
  obtain ⟨t, htm, hlink⟩ := hr.1 source hsource hnames.1
  have hid : t.id = target.id := Option.some.inj (hlink.names_target.symm.trans hnames.2)
  have hback := hlink.names_back
  rw [h.eq_of_id htm ht hid] at hback
  intro sourceId hmem
  exact ⟨source, hsource, hnames.1, Option.some.inj (hback.symm.trans hmem)⟩

/-- **The linkage check** finds nothing exactly for reciprocal legs, in every order of the list,
exactly when target legs that no source leg names show elsewhere. -/
theorem leg_linkage_exact_iff :
    ((reconcileCorporateActionLegLinkage transactions = [] ↔ Reciprocal transactions) ∧
      ∀ l, l.Perm transactions →
        reconcileCorporateActionLegLinkage l = reconcileCorporateActionLegLinkage transactions) ↔
      OrphansShow transactions := by
  rw [and_iff_left fun l hperm => h.reconcile_perm hperm, h.reconcile_eq_nil]
  constructor
  · intro hiff ⟨orphan, horphan, htype, hunnamed⟩
    by_contra hshow
    push Not at hshow
    have hr := hiff.mp ⟨hshow.1, fun target ht htarget => hshow.2 target ht htarget⟩
    obtain ⟨source, hsource, hnames⟩ := (h.reciprocal_iff.mp hr).2 orphan horphan htype
    exact hunnamed source hsource hnames
  · intro hshow
    refine ⟨fun ⟨hlinked, hall⟩ => h.reciprocal_iff.mpr ⟨hlinked, fun target ht htype => ?_⟩,
      fun hr => ⟨hr.1, fun target ht htype => hr.accountedFor h ht htype⟩⟩
    by_contra hunnamed
    push Not at hunnamed
    rcases hshow ⟨target, ht, htype, hunnamed⟩ with hbroken | ⟨other, hother, hotype, hnot⟩
    · exact hbroken hlinked
    · exact hnot (hall other hother hotype)

end Distinct

end Whole

/-- The legs of a merger of `OLD` into `NEW`. -/
def mergerLegs : List BookedLeg :=
  [{ transactionId := "T2", transactionType := "MERGER_IN", instrumentId := "NEW",
     sourceTransactionReference := some "T1", sourceInstrumentId := some "OLD",
     targetInstrumentId := some "NEW" },
   { transactionId := "T1", transactionType := "merger_out", instrumentId := "OLD",
     targetTransactionReference := some " T2", sourceInstrumentId := some "OLD",
     targetInstrumentId := some "NEW" }]

theorem leg_linkage_exact_iff_merger :
    reconcileCorporateActionLegLinkage mergerLegs = [] ∧ Reciprocal mergerLegs := by
  have hids : DistinctIds mergerLegs := ⟨by decide +kernel, by decide +kernel⟩
  have hnamed : ∀ target ∈ mergerLegs, target.IsTarget →
      ∃ source ∈ mergerLegs, Names source target := by decide +kernel
  have hshow : OrphansShow mergerLegs := by
    rintro ⟨target, ht, htype, hunnamed⟩
    obtain ⟨source, hsource, hnames⟩ := hnamed target ht htype
    exact absurd hnames (hunnamed source hsource)
  have hnone : reconcileCorporateActionLegLinkage mergerLegs = [] := by decide +kernel
  exact ⟨hnone, ((leg_linkage_exact_iff hids).mpr hshow).1.mp hnone⟩

def orphanLeg (sourceReference : Option String) : BookedLeg :=
  { transactionId := "T3", transactionType := "MERGER_IN", instrumentId := "NEW",
    sourceTransactionReference := sourceReference }

/-- A target leg without a source reference, and a second target leg for a source leg that is linked
already, both go unnoticed. -/
theorem leg_linkage_misses_orphans :
    (DistinctIds [orphanLeg none] ∧ reconcileCorporateActionLegLinkage [orphanLeg none] = [] ∧
      ¬ Reciprocal [orphanLeg none]) ∧
    DistinctIds (orphanLeg (some "T1") :: mergerLegs) ∧
      reconcileCorporateActionLegLinkage (orphanLeg (some "T1") :: mergerLegs) = [] ∧
      ¬ Reciprocal (orphanLeg (some "T1") :: mergerLegs) := by
  have hunnamed : ∀ legs : List BookedLeg,
      (∃ target ∈ legs, target.IsTarget ∧ ∀ source ∈ legs, ¬ Names source target) →
        ¬ Reciprocal legs := by
    rintro legs ⟨target, ht, htype, hunnamed⟩ hr
    obtain ⟨source, ⟨hsource, hnames⟩, -⟩ := hr.2 target ht htype
    exact hunnamed source hsource hnames
  exact ⟨⟨⟨by decide +kernel, by decide +kernel⟩, by decide +kernel,
      hunnamed _ (by decide +kernel)⟩,
    ⟨by decide +kernel, by decide +kernel⟩, by decide +kernel, hunnamed _ (by decide +kernel)⟩

end LotusCore.CorporateAction
