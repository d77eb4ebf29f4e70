import LotusCore.CostBasis.Engine
import LotusCore.Idempotency.SemanticIdentity

/-!
# Booking enrichment and the semantic identity

Before a transaction is persisted its missing linkage and policy fields are filled in. A redelivery
built from the persisted row is recognized only if the enriched fields have the canonical form of
the delivered ones.

* `enrichBookingMetadata`: the defaults of purchases, sales, dividends and interest, and the default
  cash-entry mode.
* `enrichFxTransactionMetadata`: linkage of foreign-exchange components.
* **`enrichment_keeps_identity_iff`**: which deliveries keep their identity. Empty texts are not
  canonicalized, and of what the exchange metadata fills in only linkage and policy are.
-/

namespace LotusCore

open List

/-! ## Booked transactions -/

/-- The fields of `BookedTransaction` that the exchange metadata reads or writes and whose canonical
form is their value. -/
@[ext]
structure FxFields where
  instrumentId : String
  securityId : String
  componentType : Option String := none
  componentId : Option String := none
  fxCashLegRole : Option String := none
  fxContractId : Option String := none
  fxContractOpenTransactionId : Option String := none
  fxContractCloseTransactionId : Option String := none
  swapEventId : Option String := none
  nearLegGroupId : Option String := none
  farLegGroupId : Option String := none
  spotExposureModel : Option String := none
  fxRealizedPnlMode : Option String := none
  deriving DecidableEq

/-- The material fields, under the names the payload gives them. -/
def FxFields.fields (x : FxFields) : List (String × FieldValue) :=
  [("instrument_id", .text x.instrumentId),
    ("security_id", .text x.securityId),
    ("component_type", .ofText x.componentType),
    ("component_id", .ofText x.componentId),
    ("fx_cash_leg_role", .ofText x.fxCashLegRole),
    ("fx_contract_id", .ofText x.fxContractId),
    ("fx_contract_open_transaction_id", .ofText x.fxContractOpenTransactionId),
    ("fx_contract_close_transaction_id", .ofText x.fxContractCloseTransactionId),
    ("swap_event_id", .ofText x.swapEventId),
    ("near_leg_group_id", .ofText x.nearLegGroupId),
    ("far_leg_group_id", .ofText x.farLegGroupId),
    ("spot_exposure_model", .ofText x.spotExposureModel),
    ("fx_realized_pnl_mode", .ofText x.fxRealizedPnlMode)]

/-- `BookedTransaction`, as far as identity and enrichment read it. -/
structure BookedDelivery extends DeliveredTransaction, FxFields
  deriving DecidableEq

variable (t : BookedDelivery)

def BookedDelivery.delivered : DeliveredTransaction :=
  { t.toDeliveredTransaction with otherFields := t.toFxFields.fields ++ t.otherFields }

/-- `value or default`: an empty text counts as missing. -/
def orDefault (value : Option String) (default : String) : String :=
  match value with
  | some text => if text = "" then default else text
  | none => default

/-- A text that is there and not empty. -/
def Provided (value : Option String) : Prop := value ≠ none ∧ value ≠ some ""
  deriving Decidable

/-! ## Cash-entry mode -/

inductive CashEntryMode
  | autoGenerate
  | upstreamProvided
  deriving Repr, DecidableEq

def CashEntryMode.value : CashEntryMode → String
  | .autoGenerate => "AUTO_GENERATE"
  | .upstreamProvided => "UPSTREAM_PROVIDED"

def CashEntryMode.ofValue? : String → Option CashEntryMode
  | "AUTO_GENERATE" => some .autoGenerate
  | "UPSTREAM_PROVIDED" => some .upstreamProvided
  | _ => none

def resolveCashEntryMode (value : Option String) : Except Raised CashEntryMode :=
  let normalized :=
    normalizeTransactionControlCode (some (orDefault value CashEntryMode.autoGenerate.value))
  match CashEntryMode.ofValue? normalized with
  | some mode => .ok mode
  | none => .error (.valueError
      "Unsupported cash_entry_mode. Expected AUTO_GENERATE or UPSTREAM_PROVIDED.")

def resolveDefaultCashEntryMode (transactionType : String) (cashEntryMode : Option String) :
    Except Raised (Option String) :=
  match defaultCashEntryMode transactionType with
  | none => .ok cashEntryMode
  | some defaultMode =>
    (resolveCashEntryMode (some (orDefault cashEntryMode defaultMode))).map fun mode =>
      some mode.value

/-! ## Booking metadata -/

structure BookingMetadataPolicy where
  linkagePrefix : String
  defaultPolicyVersion : String
  policyIdResolver : Option CostBasisMethod → String

/-- `_sell_policy_id`; a sale without a method is a FIFO sale. -/
def sellPolicyId (method : Option CostBasisMethod) : String :=
  if method = some .avco then "SELL_AVCO_POLICY" else "SELL_FIFO_POLICY"

/-- `_BOOKING_METADATA_POLICIES`. -/
def bookingMetadataPolicies : String → Option BookingMetadataPolicy
  | "BUY" => some ⟨"BUY", "1.0.0", fun _ => "BUY_DEFAULT_POLICY"⟩
  | "SELL" => some ⟨"SELL", "1.0.0", sellPolicyId⟩
  | "DIVIDEND" => some ⟨"DIVIDEND", "1.0.0", fun _ => "DIVIDEND_DEFAULT_POLICY"⟩
  | "INTEREST" => some ⟨"INTEREST", "1.0.0", fun _ => "INTEREST_DEFAULT_POLICY"⟩
  | _ => none

namespace BookedDelivery

variable (t : BookedDelivery)

/-- The transaction with other linkage, policy, cash-entry mode and exchange fields. -/
def withMetadata (l : TransactionLinkage) (mode : Option String) (x : FxFields) : BookedDelivery :=
  { t with toTransactionLinkage := l, cashEntryMode := mode, toFxFields := x }

/-- Linkage and policy with the defaults of a family for what is missing. -/
def filledLinkage (family policyId policyVersion : String) : TransactionLinkage where
  economicEventId := some (orDefault t.economicEventId (t.generatedId "EVT-" family))
  linkedTransactionGroupId :=
    some (orDefault t.linkedTransactionGroupId (t.generatedId "LTG-" family))
  calculationPolicyId := some (orDefault t.calculationPolicyId policyId)
  calculationPolicyVersion := some (orDefault t.calculationPolicyVersion policyVersion)

/-- Linkage and policy as `enrich_booking_metadata` leaves them. -/
def bookedLinkage (method : Option CostBasisMethod) : TransactionLinkage :=
  match bookingMetadataPolicies t.typeCode with
  | none => t.toTransactionLinkage
  | some policy =>
    t.filledLinkage policy.linkagePrefix (policy.policyIdResolver method)
      policy.defaultPolicyVersion

end BookedDelivery

def enrichBookingMetadata (method : Option CostBasisMethod) (t : BookedDelivery) :
    Except Raised BookedDelivery :=
  (resolveDefaultCashEntryMode t.typeCode t.cashEntryMode).map fun mode =>
    t.withMetadata (t.bookedLinkage method) mode t.toFxFields

/-! ## Exchange metadata -/

namespace BookedDelivery

variable (t : BookedDelivery)

def componentCode : String := normalizeTransactionControlCode t.componentType

/-- `FX_BUSINESS_TRANSACTION_TYPES`. -/
def IsFx : Prop := t.typeCode ∈ ["FX_FORWARD", "FX_SPOT", "FX_SWAP"]
  deriving Decidable

/-- `component_type in FX_CONTRACT_COMPONENT_TYPES`. -/
def IsContract : Prop := t.componentCode ∈ ["FX_CONTRACT_CLOSE", "FX_CONTRACT_OPEN"]
  deriving Decidable

/-- `_resolve_event_linkage_ids`, the group. -/
def fxLinkedGroupId : String := orDefault t.linkedTransactionGroupId (t.generatedId "LTG-" "FX")

/-- `_resolve_swap_group_ids`, the swap. -/
def fxSwapEventId : Option String :=
  if t.typeCode = "FX_SWAP" then some (orDefault t.swapEventId ("FXSWAP-" ++ t.fxLinkedGroupId))
  else t.swapEventId

/-- `_resolve_swap_group_ids`, one of the legs. -/
def fxLegGroupId (given : Option String) (leg : String) : Option String :=
  if t.typeCode = "FX_SWAP" then some (orDefault given (t.fxSwapEventId.getD "" ++ leg)) else given

def requiresSwapContractId : Prop :=
  t.typeCode = "FX_SWAP" ∧ t.componentCode.startsWith "FX_CONTRACT" = true
  deriving Decidable

def requiresForwardContractId : Prop :=
  t.typeCode = "FX_FORWARD" ∨ t.componentCode.startsWith "FX_CONTRACT" = true
  deriving Decidable

def resolveFxContractId : Option String :=
  if Provided t.fxContractId then t.fxContractId
  else if t.requiresSwapContractId then
    some ("FXC-" ++ (t.fxLegGroupId t.farLegGroupId "-FAR").getD "None")
  else if t.requiresForwardContractId then some ("FXC-" ++ t.fxLinkedGroupId)
  else none

def resolveFxCashLegRole : Option String :=
  if Provided t.fxCashLegRole then t.fxCashLegRole
  else if t.componentCode = "FX_CASH_SETTLEMENT_BUY" then some "BUY"
  else if t.componentCode = "FX_CASH_SETTLEMENT_SELL" then some "SELL"
  else none

/-- `_resolve_contract_instrument_identifiers`, for either identifier. -/
def resolveContractInstrument (given : String) : String :=
  if t.IsContract ∧ Provided t.resolveFxContractId then t.resolveFxContractId.getD given else given

/-- `_resolve_contract_lifecycle_transaction_ids`, for the identifier of one component type. -/
def resolveContractTransactionId (component : String) (given : Option String) : Option String :=
  if t.IsContract ∧ Provided t.resolveFxContractId then
    if t.componentCode = component then some (orDefault given t.transactionId) else given
  else given

/-- The code of a mode that is `NONE` when missing. -/
def modeOrNone (value : Option String) : String :=
  normalizeTransactionControlCode (some (orDefault value "NONE"))

/-- `_build_fx_metadata_update`, the exchange fields. -/
def buildFxMetadataUpdate : FxFields where
  instrumentId := t.resolveContractInstrument t.instrumentId
  securityId := t.resolveContractInstrument t.securityId
  componentType := t.componentType
  componentId := some (orDefault t.componentId t.transactionId)
  fxCashLegRole := t.resolveFxCashLegRole
  fxContractId := t.resolveFxContractId
  fxContractOpenTransactionId :=
    t.resolveContractTransactionId "FX_CONTRACT_OPEN" t.fxContractOpenTransactionId
  fxContractCloseTransactionId :=
    t.resolveContractTransactionId "FX_CONTRACT_CLOSE" t.fxContractCloseTransactionId
  swapEventId := t.fxSwapEventId
  nearLegGroupId := t.fxLegGroupId t.nearLegGroupId "-NEAR"
  farLegGroupId := t.fxLegGroupId t.farLegGroupId "-FAR"
  spotExposureModel := some (modeOrNone t.spotExposureModel)
  fxRealizedPnlMode := some (modeOrNone t.fxRealizedPnlMode)

end BookedDelivery

def enrichFxTransactionMetadata : BookedDelivery :=
  if t.IsFx then
    t.withMetadata (t.filledLinkage "FX" "FX_DEFAULT_POLICY" "1.0.0") t.cashEntryMode
      t.buildFxMetadataUpdate
  else t

/-! ## Canonical forms of filled fields -/

theorem FieldValue.ofText_injective : Function.Injective FieldValue.ofText := by
  intro v w h
  cases v <;> cases w <;> simp_all [FieldValue.ofText]

variable {value : Option String}

theorem orDefault_of_provided (h : Provided value) (default : String) :
    some (orDefault value default) = value := by
  cases value with
  | none => exact absurd rfl h.1
  | some text =>
    have htext : text ≠ "" := fun he => h.2 (by rw [he])
    simp [orDefault, htext]

theorem orDefault_of_not_provided (h : ¬ Provided value)
    (default : String) : orDefault value default = default := by
  cases value with
  | none => rfl
  | some text =>
    by_cases htext : text = ""
    · simp [orDefault, htext]
    · exact absurd ⟨by simp, by simpa using htext⟩ h

/-- A field filled in by a default keeps its value only if it was there or was the default. -/
theorem orDefault_eq_self_iff (value : Option String) (default : String) :
    some (orDefault value default) = value ↔ Provided value ∨ value = some default := by
  by_cases h : Provided value
  · simp [orDefault_of_provided h, h]
  · rw [orDefault_of_not_provided h]
    exact ⟨fun he => .inr he.symm, fun he => (he.resolve_left h).symm⟩

variable {default : String}

theorem orDefault_eq_self_iff_of_ne (hd : default ≠ "")
    (value : Option String) : some (orDefault value default) = value ↔ Provided value := by
  rw [orDefault_eq_self_iff]
  constructor
  · rintro (h | h)
    · exact h
    · rw [h]
      exact ⟨by simp, by simpa using hd⟩
  · exact .inl

/-- What counts as absent when generated hides the default, but not an empty text. -/
theorem unlessGenerated_orDefault_iff {generated : String} (hg : generated ≠ "")
    (value : Option String) :
    DeliveredTransaction.unlessGenerated (some (orDefault value generated)) generated =
      DeliveredTransaction.unlessGenerated value generated ↔ value ≠ some "" := by
  by_cases h : Provided value
  · simp [orDefault_of_provided h, h.2]
  · rw [orDefault_of_not_provided h]
    cases value with
    | none => simp [DeliveredTransaction.unlessGenerated]
    | some text =>
      have htext : text = "" := by
        by_contra hne
        exact h ⟨by simp, by simpa using hne⟩
      simp [DeliveredTransaction.unlessGenerated, htext, FieldValue.ofText, hg.symm]

theorem canonicalPolicyId_orDefault_iff {ids : List String}
    (hd : default ∈ ids) (he : "" ∉ ids) (value : Option String) :
    DeliveredTransaction.canonicalPolicyId ids (some (orDefault value default)) =
      DeliveredTransaction.canonicalPolicyId ids value ↔ value ≠ some "" := by
  by_cases h : Provided value
  · simp [orDefault_of_provided h, h.2]
  · rw [orDefault_of_not_provided h]
    cases value with
    | none => simp [DeliveredTransaction.canonicalPolicyId, hd]
    | some text =>
      have htext : text = "" := by
        by_contra hne
        exact h ⟨by simp, by simpa using hne⟩
      simp [DeliveredTransaction.canonicalPolicyId, htext, FieldValue.ofText, hd, he]

@[simp]
theorem canonicalValue_text (text : String) : canonicalValue (.text text) = .text text := rfl

@[simp]
theorem canonicalValue_ofText (value : Option String) :
    canonicalValue (.ofText value) = .ofText value := by
  cases value <;> rfl

theorem FxFields.canonical_fields_inj {x y : FxFields} :
    (x.fields.map fun f => (f.1, canonicalValue f.2)) =
      (y.fields.map fun f => (f.1, canonicalValue f.2)) ↔ x = y := by
  simp only [FxFields.fields, map_cons, map_nil, canonicalValue_text,
    canonicalValue_ofText, List.cons.injEq, Prod.mk.injEq, true_and, FieldValue.text.injEq,
    FieldValue.ofText_injective.eq_iff, and_true, FxFields.ext_iff]

namespace BookedDelivery

variable (t : BookedDelivery)

theorem material_eq :
    t.delivered.material = t.bookedFields ++ (("transaction_fx_rate", t.canonicalFxRate) ::
      (t.canonicalLinkage (transactionFamily t.transactionType) t.toTransactionLinkage ++
      (t.canonicalCashEntry t.effectiveCashEntryMode ++
      (t.toFxFields.fields.map (fun f => (f.1, canonicalValue f.2)) ++
        t.otherFields.map fun f => (f.1, canonicalValue f.2))))) := by
  have hother : t.delivered.otherFields = t.toFxFields.fields ++ t.otherFields := rfl
  rw [DeliveredTransaction.material_eq, hother, map_append, append_assoc,
    DeliveredTransaction.canonicalTransactionFields, cons_append, append_assoc]
  rfl

theorem canonicalCashEntry_inj {mode mode' : Option String} :
    t.canonicalCashEntry mode = t.canonicalCashEntry mode' ↔ mode = mode' := by
  constructor
  · intro h
    exact FieldValue.ofText_injective (Prod.mk.inj (List.cons.inj h).1).2
  · exact congrArg _

/-- **One field at a time.** New metadata keeps the material payload exactly if it keeps the
canonical form of each field. -/
theorem material_withMetadata_iff {family : String}
    (hfamily : transactionFamily t.transactionType = family)
    (l : TransactionLinkage) (mode : Option String) (x : FxFields) :
    (t.withMetadata l mode x).delivered.material = t.delivered.material ↔
      t.canonicalLinkage family l = t.canonicalLinkage family t.toTransactionLinkage ∧
      DeliveredTransaction.effectiveMode t.typeCode mode =
        DeliveredTransaction.effectiveMode t.typeCode t.cashEntryMode ∧
      x = t.toFxFields := by
  have hnew : (t.withMetadata l mode x).delivered.material =
      t.bookedFields ++ (("transaction_fx_rate", t.canonicalFxRate) ::
      (t.canonicalLinkage family l ++
      (t.canonicalCashEntry (DeliveredTransaction.effectiveMode t.typeCode mode) ++
      (x.fields.map (fun f => (f.1, canonicalValue f.2)) ++
        t.otherFields.map fun f => (f.1, canonicalValue f.2))))) := hfamily ▸ material_eq _
  rw [hnew, material_eq, hfamily, append_cancel_left_eq, cons_inj_right]
  constructor
  · intro h
    obtain ⟨hlinkage, h⟩ := append_inj h rfl
    obtain ⟨hcash, h⟩ := append_inj h rfl
    exact ⟨hlinkage, t.canonicalCashEntry_inj.mp hcash,
      FxFields.canonical_fields_inj.mp (append_cancel_right h)⟩
  · rintro ⟨hlinkage, hmode, rfl⟩
    rw [hlinkage, hmode]
    rfl

theorem transactionFamily_eq :
    transactionFamily t.transactionType =
      if t.typeCode.startsWith "FX_" then "FX" else t.typeCode := by
  unfold transactionFamily DeliveredTransaction.typeCode normalizeTransactionControlCode
  rfl

theorem generatedId_ne_empty (kind family : String) : t.generatedId kind family ≠ "" := by
  intro h
  have hlist := congrArg String.toList h
  simp [DeliveredTransaction.generatedId, String.toList_append] at hlist

end BookedDelivery

/-! ## Booking metadata and identity -/

theorem sellPolicyId_mem (method : Option CostBasisMethod) :
    sellPolicyId method ∈ defaultPolicyIds "SELL" := by
  unfold sellPolicyId
  split <;> decide

theorem bookingMetadataPolicies_spec {code : String} {policy : BookingMetadataPolicy}
    (h : bookingMetadataPolicies code = some policy) :
    code.startsWith "FX_" = false ∧ policy.linkagePrefix = code ∧
      (∀ method, policy.policyIdResolver method ∈ defaultPolicyIds code) ∧
      policy.defaultPolicyVersion = defaultPolicyVersion ∧ "" ∉ defaultPolicyIds code := by
  unfold bookingMetadataPolicies at h
  split at h
  case h_2 =>
    cases h
    exact ⟨by decide +kernel, rfl, sellPolicyId_mem, rfl, by decide⟩
  case h_5 => cases h
  all_goals
    cases h
    exact ⟨by decide +kernel, rfl, fun _ => mem_cons_self, rfl, by decide⟩

theorem defaultCashEntryMode_eq {code mode : String} (h : defaultCashEntryMode code = some mode) :
    mode = "AUTO_GENERATE" := by
  unfold defaultCashEntryMode at h
  split at h <;> simp_all

theorem upper_strip_value (mode : CashEntryMode) : upper (strip mode.value) = mode.value := by
  cases mode <;> decide +kernel

theorem CashEntryMode.value_of_ofValue? {text : String} {mode : CashEntryMode}
    (h : CashEntryMode.ofValue? text = some mode) : mode.value = text := by
  unfold CashEntryMode.ofValue? at h
  split at h <;> cases h <;> rfl

theorem orDefault_ne_empty (hd : default ≠ "") (value : Option String) :
    orDefault value default ≠ "" := by
  by_cases h : Provided value
  · intro he
    have hvalue := orDefault_of_provided h default
    rw [he] at hvalue
    exact h.2 hvalue.symm
  · rwa [orDefault_of_not_provided h]

theorem resolveCashEntryMode_ok_iff {value : String} (hv : value ≠ "") {mode : CashEntryMode} :
    resolveCashEntryMode (some value) = .ok mode ↔
      CashEntryMode.ofValue? (normalizeTransactionControlCode (some value)) = some mode := by
  have hgiven : orDefault (some value) CashEntryMode.autoGenerate.value = value := by
    simp [orDefault, hv]
  simp only [resolveCashEntryMode, hgiven]
  cases CashEntryMode.ofValue? (normalizeTransactionControlCode (some value)) <;> simp

variable {mode resolved : Option String}

theorem resolveDefaultCashEntryMode_ok_iff {code auto : String}
    (h : defaultCashEntryMode code = some auto) :
    resolveDefaultCashEntryMode code mode = .ok resolved ↔
      ∃ chosen : CashEntryMode, resolved = some chosen.value ∧ CashEntryMode.ofValue?
        (normalizeTransactionControlCode (some (orDefault mode auto))) = some chosen := by
  have hauto : auto ≠ "" := by
    rw [defaultCashEntryMode_eq h]
    decide
  unfold resolveDefaultCashEntryMode
  simp only [h, Exec.except_map_eq_ok, resolveCashEntryMode_ok_iff (orDefault_ne_empty hauto mode)]
  exact ⟨fun ⟨chosen, hchosen, he⟩ => ⟨chosen, he.symm, hchosen⟩,
    fun ⟨chosen, he, hchosen⟩ => ⟨chosen, hchosen, he.symm⟩⟩

theorem resolveDefaultCashEntryMode_effective {code : String}
    (h : resolveDefaultCashEntryMode code mode = .ok resolved) :
    DeliveredTransaction.effectiveMode code resolved =
      DeliveredTransaction.effectiveMode code mode ↔
      ((defaultCashEntryMode code).isSome → mode ≠ some "") := by
  cases hdefault : defaultCashEntryMode code with
  | none =>
    simp only [resolveDefaultCashEntryMode, hdefault, Except.ok.injEq] at h
    simp [h]
  | some auto =>
    obtain ⟨chosen, rfl, hchosen⟩ := (resolveDefaultCashEntryMode_ok_iff hdefault).mp h
    have hvalue := CashEntryMode.value_of_ofValue? hchosen
    simp only [DeliveredTransaction.effectiveMode, upper_strip_value, hdefault, Option.isSome_some,
      true_imp_iff]
    cases mode with
    | none =>
      have hauto := defaultCashEntryMode_eq hdefault
      subst hauto
      rw [hvalue]
      simp [orDefault, normalizeTransactionControlCode]
      decide +kernel
    | some text =>
      by_cases htext : text = ""
      · subst htext
        have hne : upper (strip "") = "" := by decide +kernel
        cases chosen <;> simp [hne, CashEntryMode.value]
      · have hgiven : orDefault (some text) auto = text := by simp [orDefault, htext]
        rw [hgiven] at hvalue
        rw [hvalue]
        simp [normalizeTransactionControlCode, htext]

@[mk_iff]
structure BookedDelivery.LinkageNotEmpty (t : BookedDelivery) : Prop where
  event : t.economicEventId ≠ some ""
  group : t.linkedTransactionGroupId ≠ some ""
  policyId : t.calculationPolicyId ≠ some ""
  policyVersion : t.calculationPolicyVersion ≠ some ""

/-- The fields that the booking metadata fills in hold no empty text. -/
structure BookedDelivery.BookingKept (t : BookedDelivery) : Prop where
  linkage : (bookingMetadataPolicies t.typeCode).isSome → t.LinkageNotEmpty
  cashEntryMode : (defaultCashEntryMode t.typeCode).isSome → t.cashEntryMode ≠ some ""

/-- The codes that the enrichments and the identity put in upper case are ASCII texts. -/
def BookedDelivery.AsciiCodes : Prop :=
  ∀ code ∈ [some t.transactionType, t.componentType, t.cashEntryMode, t.spotExposureModel,
    t.fxRealizedPnlMode], ∀ text ∈ code, IsAscii text

/-- The cash-entry mode is readable, where the type has a default for it. -/
def BookedDelivery.CashEntryModeSupported : Prop :=
  ∀ auto, defaultCashEntryMode t.typeCode = some auto →
    (CashEntryMode.ofValue?
      (normalizeTransactionControlCode (some (orDefault t.cashEntryMode auto)))).isSome

theorem BookedDelivery.canonicalLinkage_orDefault_iff {family policyId : String}
    (hid : policyId ∈ defaultPolicyIds family) (he : "" ∉ defaultPolicyIds family) :
    t.canonicalLinkage family (t.filledLinkage family policyId LotusCore.defaultPolicyVersion) =
      t.canonicalLinkage family t.toTransactionLinkage ↔ t.LinkageNotEmpty := by
  have hdefaults : defaultPolicyIds family ≠ [] := ne_nil_of_mem hid
  have hversion : LotusCore.defaultPolicyVersion ≠ "" := by decide
  simp only [DeliveredTransaction.canonicalLinkage, filledLinkage, List.cons.injEq, Prod.mk.injEq,
    true_and, and_true, if_pos hdefaults, canonicalPolicyId_orDefault_iff hid he,
    unlessGenerated_orDefault_iff (t.generatedId_ne_empty _ _),
    unlessGenerated_orDefault_iff hversion]
  exact t.linkageNotEmpty_iff.symm

variable {method : Option CostBasisMethod}

/-- Booking metadata keeps the material payload exactly if it replaces no empty text. -/
theorem material_bookedLinkage_iff {t : BookedDelivery}
    (h : resolveDefaultCashEntryMode t.typeCode t.cashEntryMode = .ok mode) :
    (t.withMetadata (t.bookedLinkage method) mode t.toFxFields).delivered.material =
      t.delivered.material ↔ t.BookingKept := by
  cases hpolicy : bookingMetadataPolicies t.typeCode with
  | none =>
    rw [t.material_withMetadata_iff rfl, resolveDefaultCashEntryMode_effective h]
    simp only [BookedDelivery.bookedLinkage, hpolicy, true_and, and_true]
    exact ⟨fun hkept => ⟨fun hsome => by simp [hpolicy] at hsome, hkept⟩,
      fun hkept => hkept.cashEntryMode⟩
  | some policy =>
    obtain ⟨hfx, hprefix, hid, hversion, he⟩ := bookingMetadataPolicies_spec hpolicy
    have hfamily : transactionFamily t.transactionType = t.typeCode := by
      rw [t.transactionFamily_eq, hfx]
      rfl
    rw [t.material_withMetadata_iff hfamily, resolveDefaultCashEntryMode_effective h]
    simp only [BookedDelivery.bookedLinkage, hpolicy, hprefix, hversion,
      t.canonicalLinkage_orDefault_iff (hid method) he, and_true]
    exact ⟨fun ⟨hlinkage, hkept⟩ => ⟨fun _ => hlinkage, hkept⟩,
      fun hkept => ⟨hkept.linkage (by simp [hpolicy]), hkept.cashEntryMode⟩⟩

/-! ## Exchange metadata and identity -/

namespace BookedDelivery

variable (t : BookedDelivery)

theorem fxSwapEventId_eq_iff :
    t.fxSwapEventId = t.swapEventId ↔ (t.typeCode = "FX_SWAP" → Provided t.swapEventId) := by
  unfold fxSwapEventId
  by_cases h : t.typeCode = "FX_SWAP"
  · have hmade : "FXSWAP-" ++ t.fxLinkedGroupId ≠ "" := by simp
    simp [h, orDefault_eq_self_iff_of_ne hmade]
  · simp [h]

theorem fxLegGroupId_eq_iff (given : Option String) {leg : String} (hleg : leg ≠ "") :
    t.fxLegGroupId given leg = given ↔ (t.typeCode = "FX_SWAP" → Provided given) := by
  unfold fxLegGroupId
  by_cases h : t.typeCode = "FX_SWAP"
  · have hmade : t.fxSwapEventId.getD "" ++ leg ≠ "" := by simp [hleg]
    simp [h, orDefault_eq_self_iff_of_ne hmade]
  · simp [h]

/-- A contract id is made up where the source gives none and the type or component needs one. -/
theorem resolveFxContractId_eq_iff :
    t.resolveFxContractId = t.fxContractId ↔
      Provided t.fxContractId ∨ (t.fxContractId = none ∧ ¬ t.requiresForwardContractId) := by
  unfold resolveFxContractId
  by_cases h : Provided t.fxContractId
  · simp [h]
  · have hmade : ∀ text : String, some ("FXC-" ++ text) ≠ t.fxContractId := by
      intro text he
      exact h ⟨by simp [← he], by simp [← he]⟩
    by_cases hf : t.requiresForwardContractId
    · by_cases hs : t.requiresSwapContractId <;> simp [h, hs, hf, hmade]
    · have hs : ¬ t.requiresSwapContractId := fun hs => hf (.inr hs.2)
      simp [h, hs, hf, eq_comm]

theorem resolveFxCashLegRole_eq_iff :
    t.resolveFxCashLegRole = t.fxCashLegRole ↔
      Provided t.fxCashLegRole ∨ (t.fxCashLegRole = none ∧
        t.componentCode ∉ ["FX_CASH_SETTLEMENT_BUY", "FX_CASH_SETTLEMENT_SELL"]) := by
  unfold resolveFxCashLegRole
  by_cases h : Provided t.fxCashLegRole
  · simp [h]
  · have hmade : ∀ text : String, text ≠ "" → some text ≠ t.fxCashLegRole := by
      intro text htext he
      exact h ⟨by simp [← he], by simpa [← he] using htext⟩
    by_cases hb : t.componentCode = "FX_CASH_SETTLEMENT_BUY"
    · simp [h, hb, hmade]
    · by_cases hs : t.componentCode = "FX_CASH_SETTLEMENT_SELL"
      · simp [h, hs, hmade]
      · simp [h, hb, hs, eq_comm]

variable {t}

theorem resolveFxContractId_provided (h : t.IsContract) : Provided t.resolveFxContractId := by
  have hcomponent : t.componentCode.startsWith "FX_CONTRACT" = true := by
    have hmem : t.componentCode ∈ ["FX_CONTRACT_CLOSE", "FX_CONTRACT_OPEN"] := h
    rcases mem_pair.mp hmem with he | he <;> rw [he] <;> decide +kernel
  have hmade : ∀ text : String, Provided (some ("FXC-" ++ text)) := fun text =>
    ⟨by simp, by simp⟩
  unfold resolveFxContractId
  by_cases hp : Provided t.fxContractId
  · rwa [if_pos hp]
  · rw [if_neg hp]
    by_cases hs : t.requiresSwapContractId
    · rw [if_pos hs]
      exact hmade _
    · rw [if_neg hs, if_pos (.inr hcomponent)]
      exact hmade _

theorem resolveContractInstrument_eq_iff (given : String) :
    t.resolveContractInstrument given = given ↔
      (t.IsContract → t.resolveFxContractId = some given) := by
  unfold resolveContractInstrument
  by_cases h : t.IsContract
  · have hp := resolveFxContractId_provided h
    obtain ⟨contract, hcontract⟩ := Option.ne_none_iff_exists'.mp hp.1
    rw [if_pos ⟨h, hp⟩, hcontract]
    simp [h]
  · simp [h]

theorem resolveContractTransactionId_eq_iff {component : String}
    (hc : component ∈ ["FX_CONTRACT_CLOSE", "FX_CONTRACT_OPEN"]) (given : Option String) :
    t.resolveContractTransactionId component given = given ↔
      (t.componentCode = component → Provided given ∨ given = some t.transactionId) := by
  unfold resolveContractTransactionId
  by_cases h : t.componentCode = component
  · have hcontract : t.IsContract := by
      unfold IsContract
      rwa [h]
    rw [if_pos ⟨hcontract, resolveFxContractId_provided hcontract⟩, if_pos h,
      orDefault_eq_self_iff]
    simp [h]
  · simp [h]

theorem modeOrNone_eq_iff (value : Option String) :
    some (modeOrNone value) = value ↔
      Provided value ∧ value = some (normalizeTransactionControlCode value) := by
  unfold modeOrNone
  by_cases h : Provided value
  · rw [orDefault_of_provided h]
    simp [h, eq_comm]
  · rw [orDefault_of_not_provided h]
    have hnone : normalizeTransactionControlCode (some "NONE") = "NONE" := by
      unfold normalizeTransactionControlCode
      decide +kernel
    simp only [h, false_and, iff_false, hnone]
    intro he
    exact h ⟨by simp [← he], by simp [← he]⟩

/-- The exchange metadata leaves the delivered fields as they are: nothing is missing or empty, and
the modes are written as codes, which are read as ASCII texts. -/
structure FxKept (t : BookedDelivery) : Prop where
  linkage : t.LinkageNotEmpty
  component : Provided t.componentId ∨ t.componentId = some t.transactionId
  swap : t.typeCode = "FX_SWAP" →
    Provided t.swapEventId ∧ Provided t.nearLegGroupId ∧ Provided t.farLegGroupId
  contract : Provided t.fxContractId ∨ (t.fxContractId = none ∧ ¬ t.requiresForwardContractId)
  role : Provided t.fxCashLegRole ∨ (t.fxCashLegRole = none ∧
    t.componentCode ∉ ["FX_CASH_SETTLEMENT_BUY", "FX_CASH_SETTLEMENT_SELL"])
  instrument : t.IsContract →
    t.fxContractId = some t.instrumentId ∧ t.fxContractId = some t.securityId
  openId : t.componentCode = "FX_CONTRACT_OPEN" →
    Provided t.fxContractOpenTransactionId ∨
      t.fxContractOpenTransactionId = some t.transactionId
  closeId : t.componentCode = "FX_CONTRACT_CLOSE" →
    Provided t.fxContractCloseTransactionId ∨
      t.fxContractCloseTransactionId = some t.transactionId
  exposure : Provided t.spotExposureModel ∧
    t.spotExposureModel = some (normalizeTransactionControlCode t.spotExposureModel)
  realizedPnl : Provided t.fxRealizedPnlMode ∧
    t.fxRealizedPnlMode = some (normalizeTransactionControlCode t.fxRealizedPnlMode)

theorem buildFxMetadataUpdate_eq_iff :
    t.LinkageNotEmpty ∧ t.buildFxMetadataUpdate = t.toFxFields ↔ t.FxKept := by
  simp only [FxFields.ext_iff, buildFxMetadataUpdate, resolveContractInstrument_eq_iff,
    orDefault_eq_self_iff, resolveFxCashLegRole_eq_iff, resolveFxContractId_eq_iff,
    resolveContractTransactionId_eq_iff (by decide : "FX_CONTRACT_OPEN" ∈ _),
    resolveContractTransactionId_eq_iff (by decide : "FX_CONTRACT_CLOSE" ∈ _),
    fxSwapEventId_eq_iff, fxLegGroupId_eq_iff t _ (by decide : "-NEAR" ≠ ""),
    fxLegGroupId_eq_iff t _ (by decide : "-FAR" ≠ ""), modeOrNone_eq_iff]
  constructor
  · rintro ⟨hlinkage, hinstrument, hsecurity, _, hcomponent, hrole, hcontract, hopen, hclose,
      hswap, hnear, hfar, hexposure, hpnl⟩
    have hid := t.resolveFxContractId_eq_iff.mpr hcontract
    rw [hid] at hinstrument hsecurity
    exact ⟨hlinkage, hcomponent, fun h => ⟨hswap h, hnear h, hfar h⟩, hcontract, hrole,
      fun h => ⟨hinstrument h, hsecurity h⟩, hopen, hclose, hexposure, hpnl⟩
  · intro h
    have hid := t.resolveFxContractId_eq_iff.mpr h.contract
    rw [hid]
    exact ⟨h.linkage, fun hc => (h.instrument hc).1, fun hc => (h.instrument hc).2, trivial,
      h.component, h.role, h.contract, h.openId, h.closeId, fun hs => (h.swap hs).1,
      fun hs => (h.swap hs).2.1, fun hs => (h.swap hs).2.2, h.exposure, h.realizedPnl⟩

theorem enrichFxTransactionMetadata_eq (h : t.IsFx) :
    enrichFxTransactionMetadata t =
      t.withMetadata (t.filledLinkage "FX" "FX_DEFAULT_POLICY" LotusCore.defaultPolicyVersion)
        t.cashEntryMode t.buildFxMetadataUpdate :=
  if_pos h

theorem material_enrichFxTransactionMetadata_iff (h : t.IsFx) :
    (enrichFxTransactionMetadata t).delivered.material = t.delivered.material ↔ t.FxKept := by
  have hfamily : transactionFamily t.transactionType = "FX" := by
    have hmem : t.typeCode ∈ ["FX_FORWARD", "FX_SPOT", "FX_SWAP"] := h
    have hstart : t.typeCode.startsWith "FX_" = true := by
      simp only [mem_cons, not_mem_nil, or_false] at hmem
      rcases hmem with he | he | he <;> rw [he] <;> decide +kernel
    rw [t.transactionFamily_eq, if_pos hstart]
  rw [enrichFxTransactionMetadata_eq h, t.material_withMetadata_iff hfamily,
    t.canonicalLinkage_orDefault_iff (by decide) (by decide), ← buildFxMetadataUpdate_eq_iff]
  simp

end BookedDelivery

/-! ## Identity of enriched transactions -/

/-- Equal semantic keys and equal fingerprints. -/
def SameIdentity (digest : List (String × FieldValue) → String) (u t : BookedDelivery) : Prop :=
  let enriched := buildTransactionSemanticIdentity digest u.delivered
  let delivered := buildTransactionSemanticIdentity digest t.delivered
  enriched.semanticKey = delivered.semanticKey ∧
    enriched.payloadFingerprint = delivered.payloadFingerprint

section Identity

variable {digest : List (String × FieldValue) → String}

/-- The key names nothing that metadata changes, so the payload decides. -/
theorem sameIdentity_withMetadata_iff (hdigest : Function.Injective digest) (t : BookedDelivery)
    (l : TransactionLinkage) (mode : Option String) (x : FxFields) :
    SameIdentity digest (t.withMetadata l mode x) t ↔
      (t.withMetadata l mode x).delivered.material = t.delivered.material := by
  constructor
  · intro h
    exact payloadFingerprint_injective hdigest h.2
  · intro h
    exact ⟨rfl, congrArg (payloadFingerprint digest) h⟩

theorem sameIdentity_enrichBookingMetadata_iff (hdigest : Function.Injective digest)
    {t u : BookedDelivery}
    (h : enrichBookingMetadata method t = .ok u) : SameIdentity digest u t ↔ t.BookingKept := by
  obtain ⟨mode, hmode, rfl⟩ := Exec.except_map_eq_ok.mp h
  rw [sameIdentity_withMetadata_iff hdigest, material_bookedLinkage_iff hmode]

theorem sameIdentity_enrichFxTransactionMetadata_iff (hdigest : Function.Injective digest)
    {t : BookedDelivery} (h : t.IsFx) :
    SameIdentity digest (enrichFxTransactionMetadata t) t ↔ t.FxKept := by
  rw [← BookedDelivery.material_enrichFxTransactionMetadata_iff h,
    BookedDelivery.enrichFxTransactionMetadata_eq h]
  exact sameIdentity_withMetadata_iff hdigest t _ _ _

theorem exists_enrichBookingMetadata_iff (method : Option CostBasisMethod) (t : BookedDelivery) :
    (∃ u, enrichBookingMetadata method t = .ok u) ↔ t.CashEntryModeSupported := by
  constructor
  · rintro ⟨u, hu⟩ auto hauto
    obtain ⟨mode, hmode, _⟩ := Exec.except_map_eq_ok.mp hu
    obtain ⟨chosen, _, hchosen⟩ := (resolveDefaultCashEntryMode_ok_iff hauto).mp hmode
    simp [hchosen]
  · intro h
    have hmode : ∃ mode, resolveDefaultCashEntryMode t.typeCode t.cashEntryMode = .ok mode := by
      cases hauto : defaultCashEntryMode t.typeCode with
      | none => exact ⟨t.cashEntryMode, by simp [resolveDefaultCashEntryMode, hauto]⟩
      | some auto =>
        obtain ⟨chosen, hchosen⟩ := Option.isSome_iff_exists.mp (h auto hauto)
        exact ⟨_, (resolveDefaultCashEntryMode_ok_iff hauto).mpr ⟨chosen, rfl, hchosen⟩⟩
    obtain ⟨mode, hmode⟩ := hmode
    exact ⟨_, Exec.except_map_eq_ok.mpr ⟨mode, hmode, rfl⟩⟩

/-- **Identity under enrichment.** A delivery with ASCII codes keeps its semantic key and
fingerprint through both enrichments exactly if the booking metadata replaces no empty text and, for
an exchange transaction, the exchange metadata leaves the delivered fields as they are. -/
theorem enrichment_keeps_identity_iff (hdigest : Function.Injective digest) (t : BookedDelivery)
    (_ : t.AsciiCodes) :
    ((∀ method u, enrichBookingMetadata method t = .ok u → SameIdentity digest u t) ∧
        (t.IsFx → SameIdentity digest (enrichFxTransactionMetadata t) t)) ↔
      (t.CashEntryModeSupported → t.BookingKept) ∧ (t.IsFx → t.FxKept) := by
  have hbooking : (∀ method u, enrichBookingMetadata method t = .ok u → SameIdentity digest u t) ↔
      (t.CashEntryModeSupported → t.BookingKept) := by
    constructor
    · intro h hsupported
      obtain ⟨u, hu⟩ := (exists_enrichBookingMetadata_iff none t).mpr hsupported
      exact (sameIdentity_enrichBookingMetadata_iff hdigest hu).mp (h none u hu)
    · intro h method u hu
      exact (sameIdentity_enrichBookingMetadata_iff hdigest hu).mpr
        (h ((exists_enrichBookingMetadata_iff method t).mp ⟨u, hu⟩))
  have hfx : (t.IsFx → SameIdentity digest (enrichFxTransactionMetadata t) t) ↔
      (t.IsFx → t.FxKept) :=
    forall_congr' fun h => sameIdentity_enrichFxTransactionMetadata_iff hdigest h
  rw [hbooking, hfx]

end Identity

def spotExchange : BookedDelivery where
  tenantId := some "T"
  portfolioId := "P"
  transactionId := "X1"
  transactionType := "FX_SPOT"
  instrumentId := "EURUSD"
  securityId := "EURUSD"

/-- A dividend delivered with an empty event id. -/
def unlinkedDividend : BookedDelivery where
  tenantId := some "T"
  portfolioId := "P"
  transactionId := "D1"
  transactionType := "DIVIDEND"
  economicEventId := some ""
  instrumentId := "ACME"
  securityId := "ACME"

/-- Both enrichments change identities: the component id of an exchange and an empty event id. -/
theorem enrichment_changes_identity :
    (∀ digest : List (String × FieldValue) → String, Function.Injective digest →
      ¬ SameIdentity digest (enrichFxTransactionMetadata spotExchange) spotExchange) ∧
    ∃ u, enrichBookingMetadata none unlinkedDividend = .ok u ∧
      ∀ digest : List (String × FieldValue) → String, Function.Injective digest →
        ¬ SameIdentity digest u unlinkedDividend := by
  constructor
  · intro digest hdigest
    have hfx : spotExchange.IsFx := by
      unfold BookedDelivery.IsFx DeliveredTransaction.typeCode normalizeTransactionControlCode
      decide +kernel
    rw [sameIdentity_enrichFxTransactionMetadata_iff hdigest hfx]
    intro h
    exact absurd h.component (by decide)
  · have hcode : unlinkedDividend.typeCode = "DIVIDEND" := by
      unfold DeliveredTransaction.typeCode normalizeTransactionControlCode
      decide +kernel
    have hsupported : unlinkedDividend.CashEntryModeSupported := by
      intro auto hauto
      rw [defaultCashEntryMode_eq hauto]
      unfold normalizeTransactionControlCode
      decide +kernel
    obtain ⟨u, hu⟩ := (exists_enrichBookingMetadata_iff none unlinkedDividend).mpr hsupported
    refine ⟨u, hu, fun digest hdigest => ?_⟩
    rw [sameIdentity_enrichBookingMetadata_iff hdigest hu]
    intro h
    exact absurd rfl (h.linkage (by rw [hcode]; rfl)).event

/-- The opening leg of a forward whose contract, component and modes the source names. -/
def forwardOpening : BookedDelivery where
  tenantId := some "T"
  portfolioId := "P"
  transactionId := "F1"
  transactionType := "FX_FORWARD"
  instrumentId := "FXC-1"
  securityId := "FXC-1"
  componentType := some "FX_CONTRACT_OPEN"
  componentId := some "F1"
  fxContractId := some "FXC-1"
  fxContractOpenTransactionId := some "F1"
  spotExposureModel := some "NONE"
  fxRealizedPnlMode := some "NONE"

theorem forwardOpening_keeps_identity :
    ∃ digest : List (String × FieldValue) → String, Function.Injective digest ∧
      (∀ method u, enrichBookingMetadata method forwardOpening = .ok u →
        SameIdentity digest u forwardOpening) ∧
      forwardOpening.IsFx ∧
      SameIdentity digest (enrichFxTransactionMetadata forwardOpening) forwardOpening := by
  obtain ⟨code, hcode⟩ := exists_injective_nat (List (String × FieldValue))
  have hdigest : Function.Injective fun payload => (code payload).repr :=
    fun p q hpq => hcode (Nat.repr_injective hpq)
  have htype : forwardOpening.typeCode = "FX_FORWARD" := by
    unfold DeliveredTransaction.typeCode normalizeTransactionControlCode
    decide +kernel
  have hcomponent : forwardOpening.componentCode = "FX_CONTRACT_OPEN" := by
    unfold BookedDelivery.componentCode normalizeTransactionControlCode
    decide +kernel
  have hmode : some "NONE" = some (normalizeTransactionControlCode (some "NONE")) := by
    unfold normalizeTransactionControlCode
    decide +kernel
  have hkept : forwardOpening.FxKept := by
    refine ⟨⟨by decide, by decide, by decide, by decide⟩, .inr rfl, ?_, .inl (by decide), .inr ?_,
      fun _ => ⟨rfl, rfl⟩, fun _ => .inr rfl, ?_, ⟨by decide, hmode⟩, ⟨by decide, hmode⟩⟩
    · rw [htype]
      simp
    · rw [hcomponent]
      exact ⟨rfl, by decide⟩
    · rw [hcomponent]
      simp
  have hbooking : forwardOpening.BookingKept := by
    constructor <;> rw [htype] <;> nofun
  have hfx : forwardOpening.IsFx := by
    unfold BookedDelivery.IsFx
    rw [htype]
    decide
  have hascii : forwardOpening.AsciiCodes := by
    unfold BookedDelivery.AsciiCodes
    decide +kernel
  have hsame := (enrichment_keeps_identity_iff hdigest forwardOpening hascii).mpr
    ⟨fun _ => hbooking, fun _ => hkept⟩
  exact ⟨_, hdigest, hsame.1, hfx, hsame.2 hfx⟩

end LotusCore
