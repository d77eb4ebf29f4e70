import LotusCore.Idempotency.Claims

/-!
# The fences of a semantic claim

A claim that meets rows in the way reads them in the order the database returns them, and the first
one decides.

* `UniqueFences`: the two unique indexes, each split by the tenant.
* `ProcessedEvent.verdict`, `classifyClaim_cons`: what one row says.
* `orderIndependent_iff_verdict`: the order does not matter exactly when all rows in the way agree.
* **`claim_order_independent_iff`**: they agree unless one row has the event id under another key
  and a second row the key under another event id.
-/

namespace LotusCore

open Exec List

/-! ## The table -/

/-- The unique indexes on the event id and, where there is one, on the semantic key. -/
structure UniqueFences (table : List ProcessedEvent) : Prop where
  events_nodup : (table.map fun row => (row.tenantId, row.eventId, row.serviceName)).Nodup
  keys_nodup : ((table.filter (·.semanticKey.isSome)).map
    fun row => (row.tenantId, row.serviceName, row.semanticKey)).Nodup

/-! ## The first row decides -/

section Order

variable {claim : SemanticEventClaim} {table : List ProcessedEvent} {tenantId : Option String}
  {a b : ProcessedEvent}

/-- What a row in the way says. -/
def ProcessedEvent.verdict (row : ProcessedEvent) (claim : SemanticEventClaim) :
    SemanticEventClaimOutcome :=
  if row.eventId = claim.eventId ∧ row.semanticKey = none ∧ row.payloadFingerprint = none then
    .physicalDuplicate
  else if row.payloadFingerprint ≠ some claim.payloadFingerprint then .semanticConflict
  else if row.eventId = claim.eventId then
    if row.semanticKey ≠ some claim.semanticKey then .semanticConflict else .physicalDuplicate
  else .semanticDuplicate

theorem classifyClaim_cons (h : a.Fences claim tenantId) (rest : List ProcessedEvent) :
    classifyClaim claim (a :: rest) = .ok (a.verdict claim) := by
  obtain ⟨-, -, hmatch⟩ := h
  unfold classifyClaim ProcessedEvent.verdict
  by_cases hevent : a.eventId = claim.eventId
  · simp only [hevent, true_and, if_true]
    split_ifs <;> rfl
  · -- a row with another event id has the key
    have hkey : a.semanticKey = some claim.semanticKey := hmatch.resolve_left hevent
    simp only [hevent, hkey, false_and, if_false, if_true]
    split_ifs <;> rfl

theorem claim_eq_verdict {scan : List ProcessedEvent → List ProcessedEvent}
    (htenant : normalizeTenantId claim.tenantId = .ok tenantId) (ha : a.Fences claim tenantId)
    {rest : List ProcessedEvent} (hscan : scan (table.filter (·.Fences claim tenantId)) = a :: rest)
    (hperm : (a :: rest).Perm (table.filter (·.Fences claim tenantId))) :
    claimSemanticEventProcessing scan claim table = .ok (a.verdict claim, table) := by
  have hne : table.filter (·.Fences claim tenantId) ≠ [] := by
    intro hnil
    rw [hnil] at hperm
    exact cons_ne_nil _ _ hperm.eq_nil
  rw [claimSemanticEventProcessing, htenant]
  show (if table.filter _ = [] then _ else _) = _
  rw [if_neg hne, hscan, classifyClaim_cons ha]
  rfl

/-- No order of the rows in the way changes the outcome. -/
def OrderIndependent (claim : SemanticEventClaim) (table : List ProcessedEvent) : Prop :=
  ∀ scan scan' : List ProcessedEvent → List ProcessedEvent, (∀ l, (scan l).Perm l) →
    (∀ l, (scan' l).Perm l) → claimSemanticEventProcessing scan claim table =
      claimSemanticEventProcessing scan' claim table

/-- An order that returns `row` first. -/
def scanFirst (row : ProcessedEvent) (rows : List ProcessedEvent) : List ProcessedEvent :=
  if row ∈ rows then row :: rows.erase row else rows

theorem scanFirst_perm (row : ProcessedEvent) (rows : List ProcessedEvent) :
    (scanFirst row rows).Perm rows := by
  unfold scanFirst
  split_ifs with h
  · exact (perm_cons_erase h).symm
  · exact List.Perm.refl rows

theorem claim_scanFirst (htenant : normalizeTenantId claim.tenantId = .ok tenantId)
    (hmem : a ∈ table) (ha : a.Fences claim tenantId) :
    claimSemanticEventProcessing (scanFirst a) claim table = .ok (a.verdict claim, table) := by
  have hexisting : a ∈ table.filter (·.Fences claim tenantId) :=
    mem_filter.mpr ⟨hmem, decide_eq_true ha⟩
  exact claim_eq_verdict htenant ha (if_pos hexisting) (perm_cons_erase hexisting).symm

/-- **The order does not matter exactly when all rows in the way agree.** -/
theorem orderIndependent_iff_verdict :
    OrderIndependent claim table ↔
      ∀ tenantId, normalizeTenantId claim.tenantId = .ok tenantId →
        ∀ a ∈ table, a.Fences claim tenantId → ∀ b ∈ table, b.Fences claim tenantId →
          a.verdict claim = b.verdict claim := by
  constructor
  · intro h tenantId htenant a hmem ha b hmem' hb
    have hsame := h (scanFirst a) (scanFirst b) (scanFirst_perm a) (scanFirst_perm b)
    rw [claim_scanFirst htenant hmem ha, claim_scanFirst htenant hmem' hb] at hsame
    exact congrArg Prod.fst (Except.ok.inj hsame)
  · intro h scan scan' hscan hscan'
    cases htenant : normalizeTenantId claim.tenantId with
    | error e => simp only [claimSemanticEventProcessing, htenant, bind, Except.bind]
    | ok tenantId =>
      have hfirst := hscan (table.filter (·.Fences claim tenantId))
      have hfirst' := hscan' (table.filter (·.Fences claim tenantId))
      have hmem : ∀ row ∈ table.filter (·.Fences claim tenantId),
          row ∈ table ∧ row.Fences claim tenantId := by
        intro row hrow
        simpa using mem_filter.mp hrow
      cases hrows : scan (table.filter (·.Fences claim tenantId)) with
      | nil =>
        -- no row is in the way
        have hnil : table.filter (·.Fences claim tenantId) = [] := (hrows ▸ hfirst).nil_eq.symm
        simp only [claimSemanticEventProcessing, htenant, bind, Except.bind, hnil, if_true]
      | cons a rest =>
        cases hrows' : scan' (table.filter (·.Fences claim tenantId)) with
        | nil =>
          rw [hrows'] at hfirst'
          rw [hrows, ← hfirst'.nil_eq] at hfirst
          exact absurd hfirst.eq_nil (cons_ne_nil _ _)
        | cons b rest' =>
          rw [hrows] at hfirst
          rw [hrows'] at hfirst'
          obtain ⟨ha, hfa⟩ := hmem a (hfirst.subset mem_cons_self)
          obtain ⟨hb, hfb⟩ := hmem b (hfirst'.subset mem_cons_self)
          rw [claim_eq_verdict htenant hfa hrows hfirst,
            claim_eq_verdict htenant hfb hrows' hfirst', h tenantId htenant a ha hfa b hb hfb]

/-! ## Two rows in the way -/

theorem UniqueFences.eq_of_event (h : UniqueFences table) (ha : a ∈ table) (hb : b ∈ table)
    (hfa : a.Fences claim tenantId) (hfb : b.Fences claim tenantId)
    (hevent : a.eventId = b.eventId) :
    a = b := by
  refine inj_on_of_nodup_map h.events_nodup ha hb ?_
  rw [hfa.1, hfb.1, hfa.2.1, hfb.2.1, hevent]

theorem UniqueFences.eq_of_key (h : UniqueFences table) (ha : a ∈ table) (hb : b ∈ table)
    (hfa : a.Fences claim tenantId) (hfb : b.Fences claim tenantId)
    (hkey : a.semanticKey = some claim.semanticKey)
    (hkey' : b.semanticKey = some claim.semanticKey) :
    a = b := by
  refine inj_on_of_nodup_map h.keys_nodup (mem_filter.mpr ⟨ha, by simp [hkey]⟩)
    (mem_filter.mpr ⟨hb, by simp [hkey']⟩) ?_
  rw [hfa.1, hfb.1, hfa.2.1, hfb.2.1, hkey, hkey']

theorem ProcessedEvent.verdict_of_event (hevent : a.eventId = claim.eventId)
    (hkey : a.semanticKey ≠ some claim.semanticKey) :
    a.verdict claim = if a.semanticKey = none ∧ a.payloadFingerprint = none then .physicalDuplicate
      else .semanticConflict := by
  unfold verdict
  simp only [hevent, true_and, if_true, hkey, ne_eq, not_false_eq_true]
  split_ifs <;> rfl

theorem ProcessedEvent.verdict_of_key (hevent : a.eventId ≠ claim.eventId) :
    a.verdict claim =
      if a.payloadFingerprint = some claim.payloadFingerprint then .semanticDuplicate
      else .semanticConflict := by
  unfold verdict
  simp only [hevent, false_and, if_false]
  split_ifs <;> first | rfl | contradiction

/-- The two rows have the event id and the key of the claim, each without the other. -/
structure SplitMatch (claim : SemanticEventClaim) (a b : ProcessedEvent) : Prop where
  event : a.eventId = claim.eventId
  otherKey : a.semanticKey ≠ some claim.semanticKey
  otherEvent : b.eventId ≠ claim.eventId
  key : b.semanticKey = some claim.semanticKey

/-- The rows carry a payload, and neither has the one of the claim. -/
def BothConflict (claim : SemanticEventClaim) (a b : ProcessedEvent) : Prop :=
  ¬ (a.semanticKey = none ∧ a.payloadFingerprint = none) ∧
    b.payloadFingerprint ≠ some claim.payloadFingerprint

theorem SplitMatch.verdict_eq_iff (h : SplitMatch claim a b) :
    a.verdict claim = b.verdict claim ↔ BothConflict claim a b := by
  rw [ProcessedEvent.verdict_of_event h.event h.otherKey,
    ProcessedEvent.verdict_of_key h.otherEvent, BothConflict]
  split_ifs <;> simp_all

/-- Rows in the way that say different things match the claim in different columns. -/
theorem UniqueFences.splitMatch (h : UniqueFences table) (ha : a ∈ table) (hb : b ∈ table)
    (hfa : a.Fences claim tenantId) (hfb : b.Fences claim tenantId) (hne : a ≠ b) :
    SplitMatch claim a b ∨ SplitMatch claim b a := by
  by_cases hevent : a.eventId = claim.eventId
  · have hother : b.eventId ≠ claim.eventId := fun hb' =>
      hne (h.eq_of_event ha hb hfa hfb (hevent.trans hb'.symm))
    have hkey := hfb.2.2.resolve_left hother
    exact .inl ⟨hevent, fun hk => hne (h.eq_of_key ha hb hfa hfb hk hkey), hother, hkey⟩
  · have hkey := hfa.2.2.resolve_left hevent
    have hother : b.semanticKey ≠ some claim.semanticKey := fun hk =>
      hne (h.eq_of_key ha hb hfa hfb hkey hk)
    exact .inr ⟨hfb.2.2.resolve_right hother, hother, hevent, hkey⟩

/-- **Order independence.** The outcome depends on the order exactly when one row has the event id
under another key, a second row the key under another event id, and they do not both conflict. -/
theorem claim_order_independent_iff (h : UniqueFences table) :
    OrderIndependent claim table ↔
      ∀ a ∈ table, ∀ b ∈ table, a.serviceName = claim.serviceName →
        b.serviceName = claim.serviceName →
        normalizeTenantId claim.tenantId = .ok a.tenantId → b.tenantId = a.tenantId →
          SplitMatch claim a b → BothConflict claim a b := by
  rw [orderIndependent_iff_verdict]
  constructor
  · intro hsame a ha b hb hservice hservice' htenant htenant' hsplit
    have hfa : a.Fences claim a.tenantId := ⟨hservice, rfl, .inl hsplit.event⟩
    have hfb : b.Fences claim a.tenantId := ⟨hservice', htenant', .inr hsplit.key⟩
    exact hsplit.verdict_eq_iff.mp (hsame a.tenantId htenant a ha hfa b hb hfb)
  · intro hboth tenantId htenant a ha hfa b hb hfb
    by_cases hne : a = b
    · rw [hne]
    rcases h.splitMatch ha hb hfa hfb hne with hsplit | hsplit
    · refine hsplit.verdict_eq_iff.mpr (hboth a ha b hb hfa.1 hfb.1 ?_ ?_ hsplit)
      · rw [hfa.2.1, htenant]
      · rw [hfa.2.1, hfb.2.1]
    · refine (hsplit.verdict_eq_iff.mpr (hboth b hb a ha hfb.1 hfa.1 ?_ ?_ hsplit)).symm
      · rw [hfb.2.1, htenant]
      · rw [hfa.2.1, hfb.2.1]

def sampleFence (eventId semanticKey payloadFingerprint : String) : ProcessedEvent :=
  ⟨"persistence", some "tenant", eventId, "portfolio", some semanticKey, some payloadFingerprint⟩

/-- The claim of event `e1` and key `k1` with payload `p1`. -/
def sampleClaim : SemanticEventClaim :=
  ⟨"persistence", some "tenant", "e1", "portfolio", "k1", "p1"⟩

theorem claim_order_independent_iff_conflicts :
    UniqueFences [sampleFence "e1" "k2" "p2", sampleFence "e2" "k1" "p2"] ∧
      OrderIndependent sampleClaim [sampleFence "e1" "k2" "p2", sampleFence "e2" "k1" "p2"] := by
  have hunique : UniqueFences [sampleFence "e1" "k2" "p2", sampleFence "e2" "k1" "p2"] :=
    ⟨by decide, by decide⟩
  refine ⟨hunique, (claim_order_independent_iff hunique).mpr fun a ha b hb _ _ _ _ _ => ?_⟩
  have hpayload : ∀ row ∈ [sampleFence "e1" "k2" "p2", sampleFence "e2" "k1" "p2"],
      row.payloadFingerprint = some "p2" := by decide
  refine ⟨fun hnone => ?_, ?_⟩
  · rw [hpayload a ha] at hnone
    cases hnone.2
  · rw [hpayload b hb]
    decide

theorem claim_depends_on_order :
    UniqueFences [sampleFence "e1" "k2" "p1", sampleFence "e2" "k1" "p1"] ∧
      ¬ OrderIndependent sampleClaim [sampleFence "e1" "k2" "p1", sampleFence "e2" "k1" "p1"] := by
  refine ⟨⟨by decide, by decide⟩, fun h => ?_⟩
  have hsame := h id List.reverse (fun l => List.Perm.refl l) reverse_perm
  revert hsame
  decide +kernel

end Order

end LotusCore
