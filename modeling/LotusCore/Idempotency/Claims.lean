import LotusCore.Idempotency.SemanticIdentity

/-!
# Claims on deliveries

Before a delivery is processed it claims its event id and its semantic key in `processed_events`.
The claim, the financial effects and the commit are one unit: a row is kept exactly if the effects
are.

* `claimSemanticEventProcessing`: a claim of any service.
* `claimWithLegacyCompatibility`, `execute`: one delivery with standard intent.
* `Governed`: the ids of a delivery are not confused with those of a committed one.
* `Fenced`: the rows are those of the committed deliveries, no two of one identity.
* **`execute_atMostOnce`**: along governed deliveries, effects are committed at most once for each
  identity, and a later delivery of it is a duplicate or a conflict.
-/

namespace LotusCore

open Exec List

/-! ## The table -/

/-- A row of `processed_events`. -/
structure ProcessedEvent where
  serviceName : String
  tenantId : Option String
  eventId : String
  portfolioId : String
  semanticKey : Option String
  payloadFingerprint : Option String
  deriving DecidableEq

/-- The arguments of `claim_semantic_event_processing`. -/
structure SemanticEventClaim where
  serviceName : String
  tenantId : Option String
  eventId : String
  portfolioId : String
  semanticKey : String
  payloadFingerprint : String

inductive SemanticEventClaimOutcome
  | claimed
  | physicalDuplicate
  | semanticDuplicate
  | semanticConflict
  deriving DecidableEq

/-- `MAX_TENANT_ID_LENGTH`. -/
def maxTenantIdLength : ℕ := 128

/-- The tenant id a `TenantId` holds. -/
def tenantIdValue (value : String) : Except Raised String :=
  if strip value = "" then .error (.valueError "tenant_id must be nonblank")
  else if maxTenantIdLength < (strip value).length then
    .error (.valueError "tenant_id must not exceed 128 characters")
  else .ok (strip value)

/-- `_normalize_tenant_id`. -/
def normalizeTenantId : Option String → Except Raised (Option String)
  | none => .ok none
  | some value => (tenantIdValue value).map some

/-- The row a claim inserts. -/
def SemanticEventClaim.row (claim : SemanticEventClaim) (tenantId : Option String) :
    ProcessedEvent where
  serviceName := claim.serviceName
  tenantId := tenantId
  eventId := claim.eventId
  portfolioId := claim.portfolioId
  semanticKey := some claim.semanticKey
  payloadFingerprint := some claim.payloadFingerprint

/-- The row is in the way: it has the event id or the semantic key of the claim, for its service and
tenant. -/
def ProcessedEvent.Fences (row : ProcessedEvent) (claim : SemanticEventClaim)
    (tenantId : Option String) : Prop :=
  row.serviceName = claim.serviceName ∧ row.tenantId = tenantId ∧
    (row.eventId = claim.eventId ∨ row.semanticKey = some claim.semanticKey)
  deriving Decidable

/-- What the rows in the way say, read one by one. -/
def classifyClaim (claim : SemanticEventClaim) :
    List ProcessedEvent → Except Raised SemanticEventClaimOutcome
  | [] => .error (.runtimeError
      "Semantic event claim conflicted without a matching durable fence")
  | row :: rows =>
    if row.eventId = claim.eventId ∧ row.semanticKey = none ∧ row.payloadFingerprint = none then
      .ok .physicalDuplicate
    else if row.payloadFingerprint ≠ some claim.payloadFingerprint then .ok .semanticConflict
    else if row.eventId = claim.eventId then
      if row.semanticKey ≠ some claim.semanticKey then .ok .semanticConflict
      else .ok .physicalDuplicate
    else if row.semanticKey = some claim.semanticKey then .ok .semanticDuplicate
    else classifyClaim claim rows

/-- `claim_semantic_event_processing`: insert the row, or classify the rows in the way; `scan` is
the order in which a query returns its rows. -/
def claimSemanticEventProcessing (scan : List ProcessedEvent → List ProcessedEvent)
    (claim : SemanticEventClaim) (table : List ProcessedEvent) :
    Except Raised (SemanticEventClaimOutcome × List ProcessedEvent) := do
  let tenantId ← normalizeTenantId claim.tenantId
  let existing := table.filter (·.Fences claim tenantId)
  if existing = [] then .ok (.claimed, table ++ [claim.row tenantId])
  else do
    let outcome ← classifyClaim claim (scan existing)
    .ok (outcome, table)

/-- `matches_semantic_event_processing`: the table has the row of the claim. -/
def matchesSemanticEventProcessing (claim : SemanticEventClaim) (table : List ProcessedEvent) :
    Except Raised Bool := do
  let tenantId ← normalizeTenantId claim.tenantId
  .ok (claim.row tenantId ∈ table)

/-! ## Deliveries -/

/-- A delivery with standard intent; `completes` says whether what follows the claim commits. -/
structure Delivery where
  eventId : String
  transaction : DeliveredTransaction
  completes : Bool

namespace Delivery

variable (d : Delivery)

def tenant : String := strip (d.transaction.tenantId.getD "")

def identity : String × String × String × ℤ :=
  (d.tenant, d.transaction.portfolioId, d.transaction.transactionId, d.transaction.identityEpoch)

end Delivery

inductive DeliveryOutcome
  | processed
  | rolledBack
  | duplicate
  | conflict
  | failed (e : Raised)
  deriving DecidableEq

/-- The claims and the committed financial effects, by the delivery that caused them. -/
structure ProcessingState where
  processedEvents : List ProcessedEvent := []
  effects : List Delivery := []

section Claims

-- a query without an order returns its rows in any order
variable (scan : List ProcessedEvent → List ProcessedEvent)
  (digest : List (String × FieldValue) → String)

/-- The claim of a delivery under a key and a fingerprint. -/
def Delivery.claimUnder (d : Delivery) (semanticKey payloadFingerprint : String) :
    SemanticEventClaim where
  serviceName := "portfolio-transaction-processing"
  tenantId := some (d.transaction.tenantId.getD "")
  eventId := d.eventId
  portfolioId := d.transaction.portfolioId
  semanticKey := semanticKey
  payloadFingerprint := payloadFingerprint

def Delivery.claim (d : Delivery) : SemanticEventClaim :=
  let identity := buildTransactionSemanticIdentity digest d.transaction
  d.claimUnder identity.semanticKey identity.payloadFingerprint

/-- The claim in its older form. -/
def Delivery.legacyClaim (d : Delivery) : SemanticEventClaim :=
  let identity := buildTransactionSemanticIdentity digest d.transaction
  d.claimUnder identity.legacySemanticKey identity.legacyPayloadFingerprint

def Delivery.row (d : Delivery) : ProcessedEvent := (d.claim digest).row (some d.tenant)

/-- `_claim_with_legacy_compatibility`: a conflict with the own claim in its older form is none. -/
def claimWithLegacyCompatibility (d : Delivery) (table : List ProcessedEvent) :
    Except Raised (SemanticEventClaimOutcome × List ProcessedEvent) := do
  let (outcome, table') ← claimSemanticEventProcessing scan (d.claim digest) table
  if outcome ≠ .semanticConflict then .ok (outcome, table')
  else do
    let legacyMatch ← matchesSemanticEventProcessing (d.legacyClaim digest) table'
    .ok (if legacyMatch then .physicalDuplicate else outcome, table')

/-- `ProcessTransactionUseCase._execute` with standard intent. -/
def execute (s : ProcessingState) (d : Delivery) : DeliveryOutcome × ProcessingState :=
  match claimWithLegacyCompatibility scan digest d s.processedEvents with
  | .error e => (.failed e, s)
  | .ok (.claimed, table) =>
    if d.completes then (.processed, ⟨table, s.effects ++ [d]⟩) else (.rolledBack, s)
  | .ok (.semanticConflict, _) => (.conflict, s)
  | .ok (.physicalDuplicate, _) | .ok (.semanticDuplicate, _) => (.duplicate, s)

end Claims

/-! ## Governed deliveries -/

/-- The delivery is not confused with a committed one: an identity keeps the origin of its exchange
rate, different identities have different key texts, and a redelivery has no event id of another
identity. -/
structure Governed (s : ProcessingState) (d : Delivery) : Prop where
  origin : ∀ e ∈ s.effects, e.identity = d.identity →
    e.transaction.sourceBooked = d.transaction.sourceBooked
  ids : ∀ e ∈ s.effects, e.tenant = d.tenant →
    e.transaction.identityText = d.transaction.identityText → e.identity = d.identity
  event : ∀ e ∈ s.effects, e.tenant = d.tenant → e.eventId = d.eventId →
    (∃ c ∈ s.effects, c.identity = d.identity) → e.identity = d.identity

theorem identity_of_plainIds {d e : Delivery} (he : PlainIds e.transaction)
    (hd : PlainIds d.transaction) (htenant : e.tenant = d.tenant)
    (htext : e.transaction.identityText = d.transaction.identityText) :
    e.identity = d.identity := by
  obtain ⟨hp, ht, hepoch⟩ := identityText_injective he hd htext
  unfold Delivery.identity
  rw [htenant, hp, ht, hepoch]

/-- The rows are those of the committed deliveries, which have a tenant, and no two of these have
one identity. -/
structure Fenced (digest : List (String × FieldValue) → String) (s : ProcessingState) : Prop where
  rows : s.processedEvents = s.effects.map (Delivery.row digest)
  tenants : ∀ e ∈ s.effects, tenantIdValue (e.transaction.tenantId.getD "") = .ok e.tenant
  once : (s.effects.map Delivery.identity).Nodup

section Fences

variable {scan : List ProcessedEvent → List ProcessedEvent}
  {digest : List (String × FieldValue) → String} {s : ProcessingState} {d e : Delivery}

theorem fenced_empty : Fenced digest {} := ⟨rfl, by simp, nodup_nil⟩

theorem tenantIdValue_eq_ok {value tenantId : String} (h : tenantIdValue value = .ok tenantId) :
    tenantId = strip value := by
  unfold tenantIdValue at h
  split_ifs at h
  cases h
  rfl

theorem tenantIdValue_congr {u v tenantId : String} (huv : strip u = strip v)
    (h : tenantIdValue u = .ok tenantId) : tenantIdValue v = .ok tenantId := by
  unfold tenantIdValue at h ⊢
  rwa [← huv]

theorem normalizeTenantId_some {value tenantId : String} (h : tenantIdValue value = .ok tenantId) :
    normalizeTenantId (some value) = .ok (some tenantId) := by
  rw [normalizeTenantId, h]
  rfl

theorem key_eq_iff {t u : DeliveredTransaction} :
    (buildTransactionSemanticIdentity digest t).semanticKey =
        (buildTransactionSemanticIdentity digest u).semanticKey ↔
      t.sourceBooked = u.sourceBooked ∧ t.identityText = u.identityText := by
  unfold buildTransactionSemanticIdentity
  cases ht : t.sourceBooked <;> cases hu : u.sourceBooked
  · simp [semanticKey_eq_iff]
  · simpa using (semanticKey_versions_ne u t).symm
  · simpa using semanticKey_versions_ne t u
  · simp [semanticKey_eq_iff]

theorem row_fences_iff :
    (e.row digest).Fences (d.claim digest) (some d.tenant) ↔
      e.tenant = d.tenant ∧ (e.eventId = d.eventId ∨
        (e.transaction.sourceBooked = d.transaction.sourceBooked ∧
          e.transaction.identityText = d.transaction.identityText)) := by
  simp only [ProcessedEvent.Fences, Delivery.row, SemanticEventClaim.row, Delivery.claim,
    Delivery.claimUnder, Option.some.injEq, key_eq_iff, true_and]

theorem tenant_eq_of_identity (h : e.identity = d.identity) : e.tenant = d.tenant :=
  congrArg Prod.fst h

theorem identityText_of_identity (h : e.identity = d.identity) :
    e.transaction.identityText = d.transaction.identityText := by
  simp only [Delivery.identity, Prod.mk.injEq] at h
  unfold DeliveredTransaction.identityText
  rw [h.2.1, h.2.2.1, h.2.2.2]

/-- A claim is the row of a committed delivery, and only that of the identity if it has one. -/
theorem Governed.eq_of_fences (hf : Fenced digest s) (hd : Governed s d) {c : Delivery}
    (he : e ∈ s.effects) (hid : e.identity = d.identity) (hc : c ∈ s.effects)
    (hfence : (c.row digest).Fences (d.claim digest) (some d.tenant)) : c = e := by
  obtain ⟨htenant, hevent | hkey⟩ := row_fences_iff.mp hfence
  · exact inj_on_of_nodup_map hf.once hc he
      ((hd.event c hc htenant hevent ⟨e, he, hid⟩).trans hid.symm)
  · exact inj_on_of_nodup_map hf.once hc he ((hd.ids c hc htenant hkey.2).trans hid.symm)

/-- The claim of a committed identity always meets the row of that identity. -/
theorem Governed.fences_of_committed (hd : Governed s d) (he : e ∈ s.effects)
    (hid : e.identity = d.identity) :
    (e.row digest).Fences (d.claim digest) (some d.tenant) :=
  row_fences_iff.mpr ⟨tenant_eq_of_identity hid,
    .inr ⟨hd.origin e he hid, identityText_of_identity hid⟩⟩

end Fences

def GovernedStep (scan : List ProcessedEvent → List ProcessedEvent)
    (digest : List (String × FieldValue) → String) (s s' : ProcessingState) : Prop :=
  ∃ d, Governed s d ∧ s' = (execute scan digest s d).2

section Run

variable {scan : List ProcessedEvent → List ProcessedEvent}
  {digest : List (String × FieldValue) → String} {s : ProcessingState} {d e : Delivery}

/-- The rows in the way of a redelivery are copies of the committed row. -/
theorem scan_existing (hscan : ∀ l, (scan l).Perm l) (hf : Fenced digest s) (hd : Governed s d)
    (he : e ∈ s.effects) (hid : e.identity = d.identity) :
    ∃ rest, scan (s.processedEvents.filter (·.Fences (d.claim digest) (some d.tenant))) =
      e.row digest :: rest := by
  set existing := s.processedEvents.filter (·.Fences (d.claim digest) (some d.tenant))
    with hexisting
  have hall : ∀ row ∈ existing, row = e.row digest := by
    intro row hrow
    rw [hexisting, mem_filter, hf.rows] at hrow
    obtain ⟨c, hc, rfl⟩ := mem_map.mp hrow.1
    rw [hd.eq_of_fences hf he hid hc (of_decide_eq_true hrow.2)]
  have hmem : e.row digest ∈ existing := by
    rw [hexisting, mem_filter, hf.rows]
    exact ⟨mem_map_of_mem he, decide_eq_true (hd.fences_of_committed he hid)⟩
  have hscanned : e.row digest ∈ scan existing := (hscan existing).symm.subset hmem
  cases hrows : scan existing with
  | nil =>
    rw [hrows] at hscanned
    cases hscanned
  | cons row rest =>
    have hrow : row ∈ existing := (hscan existing).subset (by rw [hrows]; exact mem_cons_self)
    exact ⟨rest, by rw [hall row hrow]⟩

theorem classifyClaim_committed (hdigest : Function.Injective digest)
    (horigin : e.transaction.sourceBooked = d.transaction.sourceBooked)
    (htext : e.transaction.identityText = d.transaction.identityText)
    (rest : List ProcessedEvent) :
    classifyClaim (d.claim digest) (e.row digest :: rest) =
      .ok (if e.transaction.material = d.transaction.material then
        if e.eventId = d.eventId then .physicalDuplicate else .semanticDuplicate
      else .semanticConflict) := by
  have hkeys : (buildTransactionSemanticIdentity digest e.transaction).semanticKey =
      (buildTransactionSemanticIdentity digest d.transaction).semanticKey :=
    key_eq_iff.mpr ⟨horigin, htext⟩
  have hkey : (e.row digest).semanticKey = some (d.claim digest).semanticKey :=
    congrArg some hkeys
  have hprint : (e.row digest).payloadFingerprint = some (d.claim digest).payloadFingerprint ↔
      e.transaction.material = d.transaction.material :=
    Option.some_inj.trans (payloadFingerprint_injective hdigest).eq_iff
  have hevent : (e.row digest).eventId = e.eventId := rfl
  have hevent' : (d.claim digest).eventId = d.eventId := rfl
  unfold classifyClaim
  rw [hkey, hevent, hevent']
  by_cases hm : e.transaction.material = d.transaction.material
  · rw [if_pos hm, hprint.mpr hm]
    by_cases h : e.eventId = d.eventId <;> simp [h]
  · rw [if_neg hm]
    simp [mt hprint.mp hm]

theorem legacyRow_notMem (hdigest : Function.Injective digest)
    (hf : Fenced digest s) (hd : Governed s d) (he : e ∈ s.effects)
    (hid : e.identity = d.identity) (hm : e.transaction.material ≠ d.transaction.material) :
    (d.legacyClaim digest).row (some d.tenant) ∉ s.processedEvents := by
  intro hrow
  rw [hf.rows] at hrow
  obtain ⟨c, hc, hmatch⟩ := mem_map.mp hrow
  simp only [Delivery.row, SemanticEventClaim.row, Delivery.claim, Delivery.legacyClaim,
    Delivery.claimUnder, ProcessedEvent.mk.injEq, Option.some.injEq] at hmatch
  obtain ⟨-, htenant, hevent, -, hkey, hprint⟩ := hmatch
  have hce : c = e := inj_on_of_nodup_map hf.once hc he
    ((hd.event c hc htenant hevent ⟨e, he, hid⟩).trans hid.symm)
  subst hce
  have horigin := hd.origin c hc hid
  unfold buildTransactionSemanticIdentity at hkey hprint
  cases hbooked : c.transaction.sourceBooked with
  | true =>
    simp only [hbooked, if_true] at hkey
    exact semanticKey_versions_ne _ _ hkey
  | false =>
    -- without a booked rate the older form is the current one
    apply hm
    have hpayload := payloadFingerprint_injective hdigest hprint
    unfold DeliveredTransaction.material
    rw [hpayload, ← horigin, hbooked]

theorem execute_of_committed (hscan : ∀ l, (scan l).Perm l) (hdigest : Function.Injective digest)
    (hf : Fenced digest s) (hd : Governed s d) (he : e ∈ s.effects)
    (hid : e.identity = d.identity) :
    execute scan digest s d =
      (if e.transaction.material = d.transaction.material then .duplicate else .conflict, s) := by
  have htenant : tenantIdValue (d.transaction.tenantId.getD "") = .ok d.tenant := by
    have h := tenantIdValue_congr (tenant_eq_of_identity hid) (hf.tenants e he)
    rwa [tenant_eq_of_identity hid] at h
  have hnormal : normalizeTenantId (d.claim digest).tenantId = .ok (some d.tenant) :=
    normalizeTenantId_some htenant
  obtain ⟨rest, hrows⟩ := scan_existing hscan hf hd he hid
  have hexisting : s.processedEvents.filter (·.Fences (d.claim digest) (some d.tenant)) ≠ [] := by
    intro hnil
    rw [hnil] at hrows
    have hperm := hscan []
    rw [hrows] at hperm
    exact absurd hperm.length_eq (by simp)
  have hclassify := classifyClaim_committed hdigest (hd.origin e he hid)
    (identityText_of_identity hid) rest
  have hclaim : claimSemanticEventProcessing scan (d.claim digest) s.processedEvents =
      .ok (if e.transaction.material = d.transaction.material then
        if e.eventId = d.eventId then .physicalDuplicate else .semanticDuplicate
      else .semanticConflict, s.processedEvents) := by
    unfold claimSemanticEventProcessing
    refine except_bind_eq_ok.mpr ⟨some d.tenant, hnormal, ?_⟩
    rw [if_neg hexisting]
    exact except_bind_eq_ok.mpr ⟨_, by rw [hrows]; exact hclassify, rfl⟩
  unfold execute claimWithLegacyCompatibility
  rw [hclaim]
  by_cases hm : e.transaction.material = d.transaction.material
  · simp only [if_pos hm]
    by_cases hevent : e.eventId = d.eventId <;> simp [hevent, bind, Except.bind]
  · have hlegacy : matchesSemanticEventProcessing (d.legacyClaim digest) s.processedEvents =
        .ok false := by
      refine except_bind_eq_ok.mpr ⟨some d.tenant, hnormal, ?_⟩
      rw [decide_eq_false (legacyRow_notMem hdigest hf hd he hid hm)]
    simp [hm, hlegacy, bind, Except.bind]

/-- A delivery with a tenant that meets no row is processed, if what follows the claim commits. -/
theorem execute_of_no_fence
    (htenant : tenantIdValue (d.transaction.tenantId.getD "") = .ok d.tenant)
    (h : s.processedEvents.filter (·.Fences (d.claim digest) (some d.tenant)) = []) :
    execute scan digest s d = if d.completes then
      (.processed, ⟨s.processedEvents ++ [d.row digest], s.effects ++ [d]⟩)
    else (.rolledBack, s) := by
  have hclaim : claimWithLegacyCompatibility scan digest d s.processedEvents =
      .ok (.claimed, s.processedEvents ++ [d.row digest]) := by
    unfold claimWithLegacyCompatibility claimSemanticEventProcessing
    refine except_bind_eq_ok.mpr
      ⟨_, except_bind_eq_ok.mpr ⟨_, normalizeTenantId_some htenant, if_pos h⟩, ?_⟩
    exact if_pos (by simp)
  unfold execute
  rw [hclaim]

theorem execute_of_tenant_error {x : Raised}
    (htenant : tenantIdValue (d.transaction.tenantId.getD "") = .error x) :
    execute scan digest s d = (.failed x, s) := by
  unfold execute claimWithLegacyCompatibility claimSemanticEventProcessing
  rw [show normalizeTenantId (d.claim digest).tenantId = .error x by
    simp [normalizeTenantId, Delivery.claim, Delivery.claimUnder, htenant, Except.map]]
  rfl

theorem execute_of_fresh (hf : Fenced digest s) (hd : Governed s d)
    (hnew : ∀ e ∈ s.effects, e.identity ≠ d.identity)
    (hfresh : ∀ e ∈ s.effects, e.tenant = d.tenant → e.eventId ≠ d.eventId) :
    (execute scan digest s d).1 ≠ .duplicate ∧ (execute scan digest s d).1 ≠ .conflict := by
  have hexisting : s.processedEvents.filter (·.Fences (d.claim digest) (some d.tenant)) = [] := by
    apply filter_eq_nil_iff.mpr
    intro row hrow
    rw [hf.rows] at hrow
    obtain ⟨c, hc, rfl⟩ := mem_map.mp hrow
    rw [decide_eq_true_eq, row_fences_iff]
    rintro ⟨htenant, hevent | hkey⟩
    · exact hfresh c hc htenant hevent
    · exact hnew c hc (hd.ids c hc htenant hkey.2)
  cases htenant : tenantIdValue (d.transaction.tenantId.getD "") with
  | error x => simp [execute_of_tenant_error htenant]
  | ok tenantId =>
    have hvalue : tenantId = d.tenant := tenantIdValue_eq_ok htenant
    subst hvalue
    rw [execute_of_no_fence htenant hexisting]
    by_cases hc : d.completes = true <;> simp [hc]

theorem classifyClaim_ne_claimed {claim : SemanticEventClaim} {rows : List ProcessedEvent} :
    classifyClaim claim rows ≠ .ok .claimed := by
  induction rows with
  | nil => simp [classifyClaim]
  | cons row rows ih =>
    unfold classifyClaim
    split_ifs
    · simp
    · simp
    · simp
    · simp
    · simp
    · exact ih

theorem claimWithLegacyCompatibility_eq_claimed {table table' : List ProcessedEvent}
    (h : claimWithLegacyCompatibility scan digest d table = .ok (.claimed, table')) :
    tenantIdValue (d.transaction.tenantId.getD "") = .ok d.tenant ∧
      table.filter (·.Fences (d.claim digest) (some d.tenant)) = [] ∧
      table' = table ++ [d.row digest] := by
  unfold claimWithLegacyCompatibility at h
  obtain ⟨⟨outcome, table₁⟩, hclaim, h⟩ := except_bind_eq_ok.mp h
  have hclaimed : outcome = .claimed ∧ table₁ = table' := by
    dsimp only at h
    split_ifs at h with hconflict
    · simpa using h
    · obtain ⟨legacyMatch, -, h⟩ := except_bind_eq_ok.mp h
      cases legacyMatch <;> simp_all
  obtain ⟨rfl, rfl⟩ := hclaimed
  unfold claimSemanticEventProcessing at hclaim
  obtain ⟨tenantId, hnormal, hclaim⟩ := except_bind_eq_ok.mp hclaim
  obtain ⟨value, htenant, rfl⟩ := except_map_eq_ok.mp hnormal
  obtain rfl : value = d.tenant := tenantIdValue_eq_ok htenant
  refine ⟨htenant, ?_⟩
  by_cases hexisting : table.filter (·.Fences (d.claim digest) (some d.tenant)) = []
  · rw [if_pos hexisting, Except.ok.injEq, Prod.mk.injEq] at hclaim
    exact ⟨hexisting, hclaim.2.symm⟩
  · rw [if_neg hexisting] at hclaim
    obtain ⟨outcome, hclassify, hok⟩ := except_bind_eq_ok.mp hclaim
    rw [Except.ok.injEq, Prod.mk.injEq] at hok
    exact absurd (hok.1 ▸ hclassify) classifyClaim_ne_claimed

/-- A delivery leaves the state, or adds its claim and its effects together. -/
theorem Fenced.execute (hf : Fenced digest s) (hd : Governed s d) :
    Fenced digest (execute scan digest s d).2 := by
  unfold LotusCore.execute
  split
  · exact hf
  · rename_i table hclaim
    obtain ⟨htenant, hexisting, rfl⟩ := claimWithLegacyCompatibility_eq_claimed hclaim
    split_ifs
    · constructor
      · simp [hf.rows]
      · intro e he
        rcases mem_append.mp he with he | he
        · exact hf.tenants e he
        · rw [mem_singleton.mp he]
          exact htenant
      · -- a committed delivery of the identity would be in the way
        rw [map_append, nodup_append]
        refine ⟨hf.once, by simp, ?_⟩
        intro x hx y hy hxy
        obtain ⟨e, he, rfl⟩ := mem_map.mp hx
        have hid : e.identity = d.identity := by simpa [hxy] using hy
        have hfence : (e.row digest).Fences (d.claim digest) (some d.tenant) :=
          hd.fences_of_committed he hid
        have hrow : e.row digest ∈ s.processedEvents := by
          rw [hf.rows]
          exact mem_map_of_mem he
        exact filter_eq_nil_iff.mp hexisting _ hrow (decide_eq_true hfence)
    · exact hf
  · exact hf
  · exact hf
  · exact hf

theorem fenced_of_reached (hs : Relation.ReflTransGen (GovernedStep scan digest) {} s) :
    Fenced digest s := by
  induction hs with
  | refl => exact fenced_empty
  | tail _ hstep ih =>
    obtain ⟨d, hd, rfl⟩ := hstep
    exact ih.execute hd

/-- **At most once.** In every state reached by governed deliveries no two committed effects are of
one identity; a further governed delivery of a committed identity leaves the state and is a
duplicate if its material payload is the same, a conflict otherwise; and a delivery of a new
identity with a fresh event id is neither. -/
theorem execute_atMostOnce (hscan : ∀ l, (scan l).Perm l) (hdigest : Function.Injective digest)
    (hs : Relation.ReflTransGen (GovernedStep scan digest) {} s) (hd : Governed s d) :
    (s.effects.map Delivery.identity).Nodup ∧
      (∀ e ∈ s.effects, e.identity = d.identity → execute scan digest s d =
        (if e.transaction.material = d.transaction.material then .duplicate else .conflict, s)) ∧
      ((∀ e ∈ s.effects, e.identity ≠ d.identity) →
        (∀ e ∈ s.effects, e.tenant = d.tenant → e.eventId ≠ d.eventId) →
        (execute scan digest s d).1 ≠ .duplicate ∧ (execute scan digest s d).1 ≠ .conflict) := by
  have hf := fenced_of_reached hs
  exact ⟨hf.once, fun e he hid => execute_of_committed hscan hdigest hf hd he hid,
    fun hnew hfresh => execute_of_fresh hf hd hnew hfresh⟩

end Run

def deliveredPurchase (eventId : String) (rateOrigin : Option String) : Delivery where
  eventId := eventId
  transaction :=
    { tenantId := some "T"
      portfolioId := "P"
      transactionId := "B1"
      transactionType := "BUY"
      transactionFxRate := some (11 / 10)
      transactionFxRateOrigin := rateOrigin }
  completes := true

theorem execute_first_purchase (digest : List (String × FieldValue) → String) :
    execute id digest {} (deliveredPurchase "E1" none) =
      (.processed, ⟨[(deliveredPurchase "E1" none).row digest], [deliveredPurchase "E1" none]⟩) :=
  execute_of_no_fence rfl rfl

/-- A purchase and its redelivery under another event id: the second is a duplicate. -/
theorem execute_redelivered_purchase :
    ∃ digest : List (String × FieldValue) → String, Function.Injective digest ∧
      execute id digest (execute id digest {} (deliveredPurchase "E1" none)).2
          (deliveredPurchase "E2" none) =
        (.duplicate, (execute id digest {} (deliveredPurchase "E1" none)).2) := by
  obtain ⟨code, hcode⟩ := exists_injective_nat (List (String × FieldValue))
  have hdigest : Function.Injective fun payload => (code payload).repr :=
    fun p q hpq => hcode (Nat.repr_injective hpq)
  have hscan : ∀ l : List ProcessedEvent, (id l).Perm l := List.Perm.refl
  have heffects : (execute id (fun payload => (code payload).repr) {}
      (deliveredPurchase "E1" none)).2.effects = [deliveredPurchase "E1" none] := by
    rw [execute_first_purchase]
  have hfirst : Governed {} (deliveredPurchase "E1" none) := by constructor <;> simp
  have hsecond : Governed (execute id (fun payload => (code payload).repr) {}
      (deliveredPurchase "E1" none)).2 (deliveredPurchase "E2" none) := by
    constructor <;> rw [heffects]
    · intro e he _
      rw [mem_singleton.mp he]
      rfl
    · intro e he htenant htext
      rw [mem_singleton.mp he] at htenant htext ⊢
      exact identity_of_plainIds ⟨by decide, by decide, by decide⟩
        ⟨by decide, by decide, by decide⟩ htenant htext
    · intro e he _ _ _
      rw [mem_singleton.mp he]
      rfl
  have hduplicate := (execute_atMostOnce hscan hdigest (.single ⟨_, hfirst, rfl⟩) hsecond).2.1
    (deliveredPurchase "E1" none) (by rw [heffects]; exact mem_singleton_self _) rfl
  have hsame : (deliveredPurchase "E1" none).transaction.material =
      (deliveredPurchase "E2" none).transaction.material := rfl
  rw [if_pos hsame] at hduplicate
  exact ⟨_, hdigest, hduplicate⟩

/-- A purchase delivered again with the rate booked by the source: both commit effects of one
identity. -/
theorem execute_changed_origin :
    (∀ digest : List (String × FieldValue) → String,
      (execute id digest (execute id digest {} (deliveredPurchase "E1" none)).2
          (deliveredPurchase "E2" (some "SOURCE_BOOKED"))).2.effects =
        [deliveredPurchase "E1" none, deliveredPurchase "E2" (some "SOURCE_BOOKED")]) ∧
    (deliveredPurchase "E1" none).identity =
      (deliveredPurchase "E2" (some "SOURCE_BOOKED")).identity := by
  refine ⟨fun digest => ?_, rfl⟩
  rw [execute_first_purchase, execute_of_no_fence rfl]
  · rfl
  · apply filter_eq_nil_iff.mpr
    intro row hrow
    rw [mem_singleton.mp hrow, decide_eq_true_eq, row_fences_iff]
    rintro ⟨-, hevent | hkey⟩
    · exact absurd hevent (by decide)
    · exact absurd hkey.1 (by decide)

end LotusCore
