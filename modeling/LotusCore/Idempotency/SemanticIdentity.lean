import Mathlib
import LotusCore.Numeric.Policy
import LotusCore.Transaction.Types

/-!
# Semantic identity of a booked transaction

A delivery is recognized by a key made of its ids and by a fingerprint of its material fields.

* `canonicalTransactionFields`, `materialPayload`: the material fields in canonical form; what a
  processor generates by default counts as absent.
* `buildTransactionSemanticIdentity`: key and fingerprint. Both depend on whether the source booked
  the exchange rate: it is material only then, and the key names another version.
* **`identityText_injective`**: plain ids can be read off the key.
-/

namespace LotusCore

open List

/-! ## Fields -/

instance charCountable : Countable Char :=
  Function.Injective.countable (f := Char.toNat) fun _ _ => Char.toNat_inj.mp

instance stringCountable : Countable String :=
  Function.Injective.countable (f := String.toList) fun _ _ => String.toList_inj.mp

/-- A value of the payload, as it is serialized. -/
inductive FieldValue
  | absent
  | text (value : String)
  | decimal (value : ℚ)
  | number (value : ℤ)
  | flag (value : Bool)
  | day (value : ℤ)
  | instant (micros : ℤ) (aware : Bool)
  | texts (values : List String)
  deriving DecidableEq, Countable

def FieldValue.ofText : Option String → FieldValue
  | none => .absent
  | some s => .text s

/-- Linkage and policy of a booked transaction. -/
structure TransactionLinkage where
  economicEventId : Option String := none
  linkedTransactionGroupId : Option String := none
  calculationPolicyId : Option String := none
  calculationPolicyVersion : Option String := none
  deriving DecidableEq

/-- `BookedTransaction`, as far as its identity reads it. `otherFields` are the material fields
whose canonical form depends on their value alone. -/
structure DeliveredTransaction extends TransactionLinkage where
  tenantId : Option String
  portfolioId : String
  transactionId : String
  epoch : Option ℤ := none
  transactionType : String
  transactionFxRate : Option ℚ := none
  transactionFxRateOrigin : Option String := none
  cashEntryMode : Option String := none
  externalCashTransactionId : Option String := none
  otherFields : List (String × FieldValue) := []
  deriving DecidableEq

/-- `SOURCE_BOOKED_FX_RATE_ORIGIN`. -/
def sourceBookedFxRateOrigin : String := "SOURCE_BOOKED"

/-- `_DEFAULT_POLICY_IDS_BY_FAMILY`; no ids for a family without defaults. -/
def defaultPolicyIds : String → List String
  | "BUY" => ["BUY_DEFAULT_POLICY"]
  | "DIVIDEND" => ["DIVIDEND_DEFAULT_POLICY"]
  | "FX" => ["FX_DEFAULT_POLICY"]
  | "INTEREST" => ["INTEREST_DEFAULT_POLICY"]
  | "SELL" => ["SELL_AVCO_POLICY", "SELL_FIFO_POLICY"]
  | _ => []

/-- `_DEFAULT_POLICY_VERSION`. -/
def defaultPolicyVersion : String := "1.0.0"

/-- `default_cash_entry_mode` of the registered type. -/
def defaultCashEntryMode : String → Option String
  | "INTEREST" | "DIVIDEND" | "MATURITY_REDEMPTION" | "CALL_REDEMPTION" | "PARTIAL_REDEMPTION" =>
    some "AUTO_GENERATE"
  | _ => none

def transactionFamily (transactionType : String) : String :=
  let normalized := upper (strip transactionType)
  if normalized.startsWith "FX_" then "FX" else normalized

/-- `_canonical_value`: a decimal is normalized in the ambient context, an instant is read in
UTC. -/
def canonicalValue : FieldValue → FieldValue
  | .decimal x => .decimal (ambientContext.round x)
  | .instant micros _ => .instant micros true
  | v => v

namespace DeliveredTransaction

variable (t : DeliveredTransaction)

def sourceBooked : Bool := t.transactionFxRateOrigin == some sourceBookedFxRateOrigin

def typeCode : String := normalizeTransactionControlCode (some t.transactionType)

/-- The mode in force: the delivered one, or the default of the type. -/
def effectiveMode (code : String) (mode : Option String) : Option String :=
  match mode with
  | some text => some (upper (strip text))
  | none => defaultCashEntryMode code

def effectiveCashEntryMode : Option String := effectiveMode t.typeCode t.cashEntryMode

/-- An id counts as absent if it is the one a processor generates. -/
def unlessGenerated (value : Option String) (generated : String) : FieldValue :=
  if value = none ∨ value = some generated then .absent else .ofText value

/-- The linkage id that the booking would generate. -/
def generatedId (kind family : String) : String :=
  kind ++ family ++ "-" ++ t.portfolioId ++ "-" ++ t.transactionId

def canonicalPolicyId (ids : List String) (value : Option String) : FieldValue :=
  if value.any (· ∉ ids) then .ofText value else .absent

/-- `_canonical_transaction_field`, for linkage and policy. -/
def canonicalLinkage (family : String) (l : TransactionLinkage) : List (String × FieldValue) :=
  [("economic_event_id", unlessGenerated l.economicEventId (t.generatedId "EVT-" family)),
    ("linked_transaction_group_id",
      unlessGenerated l.linkedTransactionGroupId (t.generatedId "LTG-" family)),
    ("calculation_policy_id", canonicalPolicyId (defaultPolicyIds family) l.calculationPolicyId),
    ("calculation_policy_version",
      if defaultPolicyIds family ≠ [] then
        unlessGenerated l.calculationPolicyVersion defaultPolicyVersion
      else .ofText l.calculationPolicyVersion)]

/-- `_canonical_transaction_field`, for the cash entry under its effective mode. -/
def canonicalCashEntry (mode : Option String) : List (String × FieldValue) :=
  [("cash_entry_mode", .ofText mode),
    ("external_cash_transaction_id",
      if mode = some "AUTO_GENERATE" then
        unlessGenerated t.externalCashTransactionId (t.transactionId ++ "-CASHLEG")
      else .ofText t.externalCashTransactionId)]

/-- `_canonical_transaction_field`, for the exchange rate. -/
def canonicalFxRate : FieldValue :=
  if t.sourceBooked then
    match t.transactionFxRate with
    | some rate => canonicalValue (.decimal rate)
    | none => .absent
  else .absent

/-- `_canonical_transaction_field`, for the fields it treats by name. -/
def canonicalTransactionFields : List (String × FieldValue) :=
  ("transaction_fx_rate", t.canonicalFxRate) ::
    (t.canonicalLinkage (transactionFamily t.transactionType) t.toTransactionLinkage ++
      t.canonicalCashEntry t.effectiveCashEntryMode)

/-- The material fields that are booked as they are. -/
def bookedFields : List (String × FieldValue) :=
  [("portfolio_id", .text t.portfolioId), ("transaction_id", .text t.transactionId),
    ("transaction_type", .text t.transactionType),
    ("epoch", match t.epoch with | some n => .number n | none => .absent)]

def materialPayload (includeSourceBookedFx : Bool) : List (String × FieldValue) :=
  t.bookedFields ++ t.canonicalTransactionFields.map (fun f =>
    if f.1 = "transaction_fx_rate" ∧ !includeSourceBookedFx then (f.1, .absent) else f) ++
  t.otherFields.map fun f => (f.1, canonicalValue f.2)

def identityEpoch : ℤ := t.epoch.getD 0

/-- The ids of the semantic key. -/
def identityText : String :=
  strip t.portfolioId ++ ":" ++ (strip t.transactionId ++ ":" ++ t.identityEpoch.repr)

/-- The payload the fingerprint of the transaction is taken of. -/
def material : List (String × FieldValue) := t.materialPayload t.sourceBooked

/-- A rate that was not booked is absent from the payload either way. -/
theorem material_eq :
    t.material = t.bookedFields ++ t.canonicalTransactionFields ++
      t.otherFields.map fun f => (f.1, canonicalValue f.2) := by
  unfold material materialPayload
  cases h : t.sourceBooked with
  | true => simp
  | false =>
    simp [canonicalTransactionFields, canonicalLinkage, canonicalCashEntry, canonicalFxRate, h]

end DeliveredTransaction

/-! ## Identity -/

structure TransactionSemanticIdentity where
  semanticKey : String
  payloadFingerprint : String
  legacySemanticKey : String
  legacyPayloadFingerprint : String

def semanticKey (version : String) (t : DeliveredTransaction) : String :=
  "transaction-processing:" ++ (version ++ (":" ++ t.identityText))

section Fingerprint

-- the digest of a canonical payload: `sha256` of its JSON text
variable (digest : List (String × FieldValue) → String)

def payloadFingerprint (payload : List (String × FieldValue)) : String :=
  "sha256:" ++ digest payload

def buildTransactionSemanticIdentity (t : DeliveredTransaction) : TransactionSemanticIdentity where
  semanticKey := semanticKey (if t.sourceBooked then "v2" else "v1") t
  payloadFingerprint := payloadFingerprint digest (t.materialPayload t.sourceBooked)
  legacySemanticKey := semanticKey "v1" t
  legacyPayloadFingerprint := payloadFingerprint digest (t.materialPayload false)

variable {digest}

theorem payloadFingerprint_injective (h : Function.Injective digest) :
    Function.Injective (payloadFingerprint digest) := by
  intro p q hpq
  exact h ((String.append_right_inj _).mp hpq)

end Fingerprint

/-! ## Reading ids off a key -/

theorem semanticKey_eq_iff {version : String} {t u : DeliveredTransaction} :
    semanticKey version t = semanticKey version u ↔ t.identityText = u.identityText := by
  unfold semanticKey
  rw [String.append_right_inj, String.append_right_inj, String.append_right_inj]

theorem version_append_ne (x y : String) : "v2" ++ x ≠ "v1" ++ y := by
  intro h
  have hlist := congrArg String.toList h
  have h2 : "v2".toList = ['v', '2'] := rfl
  have h1 : "v1".toList = ['v', '1'] := rfl
  rw [String.toList_append, String.toList_append, h2, h1] at hlist
  simp at hlist

theorem semanticKey_versions_ne (t u : DeliveredTransaction) :
    semanticKey "v2" t ≠ semanticKey "v1" u := by
  intro h
  exact version_append_ne _ _ ((String.append_right_inj _).mp h)

theorem append_colon_injective {p q r s : List Char} (hp : ':' ∉ p) (hq : ':' ∉ q)
    (h : p ++ ':' :: r = q ++ ':' :: s) : p = q ∧ r = s := by
  induction p generalizing q with
  | nil =>
    cases q with
    | nil => simpa using h
    | cons c q =>
      simp only [nil_append, cons_append, List.cons.injEq] at h
      exact absurd (h.1 ▸ mem_cons_self) hq
  | cons c p ih =>
    cases q with
    | nil =>
      simp only [nil_append, cons_append, List.cons.injEq] at h
      exact absurd (h.1 ▸ mem_cons_self) hp
    | cons d q =>
      simp only [cons_append, List.cons.injEq] at h
      obtain ⟨hpq, hrs⟩ := ih (fun hc => hp (mem_cons_of_mem _ hc))
        (fun hc => hq (mem_cons_of_mem _ hc)) h.2
      exact ⟨by rw [h.1, hpq], hrs⟩

theorem colon_notMem_repr (n : ℤ) : ':' ∉ n.repr.toList := by
  have hnat : ∀ k : ℕ, ':' ∉ k.repr.toList := by
    intro k hk
    have hdigit := Nat.isDigit_of_mem_toDigits (c := ':') (b := 10) (n := k) (by norm_num) le_rfl
      (by simpa [Nat.repr] using hk)
    exact absurd hdigit (by decide)
  cases n with
  | ofNat k => exact hnat k
  | negSucc k =>
    intro h
    simp only [Int.repr, String.toList_append, mem_append] at h
    rcases h with h | h
    · exact absurd h (by decide)
    · exact hnat _ h

/-- Ids without blanks around them, and a portfolio id without a colon. -/
structure PlainIds (t : DeliveredTransaction) : Prop where
  portfolio : strip t.portfolioId = t.portfolioId
  transaction : strip t.transactionId = t.transactionId
  colon : ':' ∉ t.portfolioId.toList

/-- **Ids off a key.** Plain ids are determined by the text of the key. -/
theorem identityText_injective {t u : DeliveredTransaction} (ht : PlainIds t) (hu : PlainIds u)
    (h : t.identityText = u.identityText) :
    t.portfolioId = u.portfolioId ∧ t.transactionId = u.transactionId ∧
      t.identityEpoch = u.identityEpoch := by
  unfold DeliveredTransaction.identityText at h
  rw [ht.portfolio, ht.transaction, hu.portfolio, hu.transaction, ← String.toList_inj] at h
  have htext : ":".toList = [':'] := rfl
  simp only [String.toList_append, htext, append_assoc, singleton_append] at h
  obtain ⟨hp, hrest⟩ := append_colon_injective ht.colon hu.colon h
  -- the epoch has no colon, so the last one ends the transaction id
  have hrev := congrArg List.reverse hrest
  simp only [reverse_append, reverse_cons, append_assoc, singleton_append]
    at hrev
  have hnot : ∀ n : ℤ, ':' ∉ n.repr.toList.reverse := by
    intro n
    simpa using colon_notMem_repr n
  obtain ⟨he, hi⟩ := append_colon_injective (hnot _) (hnot _) hrev
  exact ⟨String.toList_inj.mp hp, String.toList_inj.mp (reverse_injective hi),
    Int.repr_inj.mp (String.toList_inj.mp (reverse_injective he))⟩

end LotusCore
