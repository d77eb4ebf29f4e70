import LotusCore.CostBasis.Checkpoint

/-!
# Persisting calculated transactions

Before a calculated transaction is written it is compared with the booked transaction it came from:
identity, dates, quantity, amount, currency and fees must be the booked ones.

* `BookedTransaction`: the booked command, with its calendar values and fees as booked.
* `validateIncomingFeeSource`: the comparison.
* `Completes`: `process_transactions` or `process_increment` calculates a transaction without error.
* `Persistable`: tenant, currency, dates, fees and redeemed quantity are booked as the calculation
  leaves them.
* **`validateIncomingFeeSource_iff`**: the comparison succeeds exactly for these bookings.
-/

namespace LotusCore

open Exec Decimal List

/-! ## Booked transactions -/

/-- `standardize_datetime_value` reads a value without a zone in UTC. -/
def standardizeDatetimeValue (d : Timestamp) : Timestamp := { d with aware := true }

/-- `BookedTransaction`: the fields that are compared again before it is persisted; `terms` stands
for the other inputs of the calculation. -/
structure BookedTransaction where
  transactionId : String
  portfolioId : String
  instrumentId : String
  securityId : String
  transactionDate : Timestamp
  settlementDate : Option Timestamp := none
  transactionType : TransactionType
  quantity : ℚ
  grossTransactionAmount : ℚ
  tradeCurrency : String
  tradeFee : Option ℚ := some 0
  brokerage : Option ℚ := none
  stampDuty : Option ℚ := none
  exchangeFee : Option ℚ := none
  gst : Option ℚ := none
  otherFees : Option ℚ := none
  tenantId : String := ""
  epoch : Option ℤ := none
  terms : CostBasisTransaction

namespace BookedTransaction

variable (b : BookedTransaction)

/-- The named fees in the order they are added up. -/
def feeComponents : List (String × Option ℚ) :=
  [("brokerage", b.brokerage), ("stamp_duty", b.stampDuty), ("exchange_fee", b.exchangeFee),
    ("gst", b.gst), ("other_fees", b.otherFees)]

def hasFeeComponents : Bool := b.feeComponents.any fun c => c.2.isSome

end BookedTransaction

variable (b : BookedTransaction)

/-- `resolve_transaction_trade_fee`: named fees replace the trade fee. -/
def resolveTransactionTradeFee : Except Raised ℚ :=
  if b.tradeFee.getD 0 < 0 then
    .error (.valueError "trade_fee must be greater than or equal to zero.")
  else if b.hasFeeComponents then totalFeeComponentAmount b.feeComponents
  else .ok (b.tradeFee.getD 0)

/-- `Fees.__init__`. -/
def Fees.new (stampDuty exchangeFee gst brokerage otherFees : ℚ) : Except Raised Fees :=
  if h : 0 ≤ stampDuty ∧ 0 ≤ exchangeFee ∧ 0 ≤ gst ∧ 0 ≤ brokerage ∧ 0 ≤ otherFees then
    .ok ⟨stampDuty, exchangeFee, gst, brokerage, otherFees, h⟩
  else
    let field := if stampDuty < 0 then "stamp_duty" else if exchangeFee < 0 then "exchange_fee"
      else if gst < 0 then "gst" else if brokerage < 0 then "brokerage" else "other_fees"
    .error (.valueError (field ++ " must be greater than or equal to 0"))

structure EngineFees where
  fees : Fees
  tradeFee : ℚ

/-- The fees `build_cost_basis_engine_input` derives: a trade fee without components is booked as
brokerage. -/
def buildCostBasisEngineInput : Except Raised EngineFees := do
  let tradeFee ← resolveTransactionTradeFee b
  if b.hasFeeComponents then
    let fees ← Fees.new (b.stampDuty.getD 0) (b.exchangeFee.getD 0) (b.gst.getD 0)
      (b.brokerage.getD 0) (b.otherFees.getD 0)
    .ok ⟨fees, tradeFee⟩
  else if 0 < tradeFee then
    let fees ← Fees.new 0 0 0 tradeFee 0
    .ok ⟨fees, tradeFee⟩
  else .ok ⟨{}, 0⟩

def parseTransaction : Except Raised CostBasisTransaction := do
  let input ← buildCostBasisEngineInput b
  if b.quantity < 0 then
    .error (.valueError "quantity must be greater than or equal to 0")
  else if b.grossTransactionAmount < 0 then
    .error (.valueError "gross_transaction_amount must be greater than or equal to 0")
  else .ok { b.terms with
    transactionId := b.transactionId
    portfolioId := b.portfolioId
    instrumentId := b.instrumentId
    securityId := b.securityId
    transactionType := b.transactionType
    transactionDate := (standardizeDatetimeValue b.transactionDate).instant
    settlementDate := b.settlementDate.map fun d => (standardizeDatetimeValue d).instant
    quantity := b.quantity
    grossTransactionAmount := b.grossTransactionAmount
    fees := input.fees
    tradeCurrency := b.tradeCurrency
    sourceLotOrderQuantity := none
    sourceLotOriginalQuantity := none
    errorReason := none
    tenantId := b.tenantId
    epoch := b.epoch
    fx := b.terms.fx.map fun terms => { terms with tradeFee := some input.tradeFee } }

/-! ## The comparison -/

def calculatedTimestamp (instant : ℤ) : Timestamp := ⟨instant, true⟩

/-- `_CALCULATED_SOURCE_FIELDS`: the calculated transaction has the booked values. -/
def calculatedSourceFieldsAgree (t : CostBasisTransaction) (b : BookedTransaction) : Bool :=
  t.tenantId = b.tenantId ∧ t.portfolioId = b.portfolioId ∧ t.securityId = b.securityId ∧
    t.transactionId = b.transactionId ∧ t.instrumentId = b.instrumentId ∧
    calculatedTimestamp t.transactionDate = b.transactionDate ∧
    t.settlementDate.map calculatedTimestamp = b.settlementDate ∧ t.quantity = b.quantity ∧
    t.grossTransactionAmount = b.grossTransactionAmount ∧ t.tradeCurrency = b.tradeCurrency ∧
    t.epoch = b.epoch

def validateIncomingFeeSource (processed : List CostBasisTransaction) (incomingIds : List String)
    : Except Raised Unit :=
  match incomingIds, processed.filter fun t => t.transactionId = b.transactionId with
  | [id], [t] =>
    if id ≠ b.transactionId then
      .error (.valueError "Incoming fee source requires exactly one calculated root")
    else if b.tenantId = "" ∨ ¬ calculatedSourceFieldsAgree t b then
      .error (.valueError
        "Incoming fee source conflicts with calculated root scope or material")
    else if t.transactionType ≠ b.transactionType then
      .error (.valueError "Incoming fee source conflicts with calculated transaction type")
    else do
      let expected ← buildCostBasisEngineInput b
      if t.fees ≠ expected.fees ∨ t.fees.totalFees ≠ expected.tradeFee then
        .error (.valueError "Incoming fee source conflicts with calculated fees")
      else .ok ()
  | _, _ => .error (.valueError "Incoming fee source requires exactly one calculated root")

/-! ## Fees -/

/-- The booked fees add up to the same in both orders: the order they are booked in and the order
of the calculated total. -/
def FeesAddUp : Prop :=
  let add := fun x y => ambientContext.round (x + y)
  if b.hasFeeComponents then
    add (add (add (add (add 0 (b.brokerage.getD 0)) (b.stampDuty.getD 0)) (b.exchangeFee.getD 0))
      (b.gst.getD 0)) (b.otherFees.getD 0) =
    add (add (add (add (b.stampDuty.getD 0) (b.exchangeFee.getD 0)) (b.gst.getD 0))
      (b.brokerage.getD 0)) (b.otherFees.getD 0)
  else ambientContext.round (b.tradeFee.getD 0) = b.tradeFee.getD 0
  deriving Decidable

theorem Fees.totalFees_of_new {s e g b o : ℚ} {f : Fees} (h : Fees.new s e g b o = .ok f) :
    f.totalFees =
      let add := fun x y => ambientContext.round (x + y)
      add (add (add (add s e) g) b) o := by
  unfold Fees.new at h
  split_ifs at h
  cases h
  rfl

theorem totalFeeComponentAmount_eq {components : List (String × Option ℚ)} {total : ℚ}
    (h : totalFeeComponentAmount components = .ok total) :
    total = components.foldl (fun sum c => ambientContext.round (sum + c.2.getD 0)) 0 := by
  unfold totalFeeComponentAmount at h
  suffices hfrom : ∀ start : ℚ, components.foldlM (fun (sum : ℚ) (c : String × Option ℚ) =>
      if c.2.getD 0 < 0 then
        Except.error (Raised.valueError (c.1 ++ " must be greater than or equal to zero."))
      else .ok (ambientContext.round (sum + c.2.getD 0))) start = .ok total →
      total = components.foldl (fun sum c => ambientContext.round (sum + c.2.getD 0)) start from
    hfrom 0 h
  clear h
  intro start h
  induction components generalizing start with
  | nil => cases h; rfl
  | cons c components ih =>
    rw [foldlM_cons, except_bind_eq_ok] at h
    obtain ⟨next, hnext, h⟩ := h
    split_ifs at hnext
    cases hnext
    exact ih _ h

theorem totalFees_eq_tradeFee_iff {b : BookedTransaction} {input : EngineFees}
    (h : buildCostBasisEngineInput b = .ok input) :
    input.fees.totalFees = input.tradeFee ↔ FeesAddUp b := by
  unfold buildCostBasisEngineInput resolveTransactionTradeFee at h
  rw [except_bind_eq_ok] at h
  obtain ⟨fee, hfee, h⟩ := h
  unfold FeesAddUp
  by_cases hneg : b.tradeFee.getD 0 < 0
  · rw [if_pos hneg] at hfee
    cases hfee
  rw [if_neg hneg] at hfee
  by_cases hc : b.hasFeeComponents = true
  · rw [if_pos hc] at hfee h
    rw [if_pos hc]
    obtain ⟨fees, hfees, hok⟩ := except_bind_eq_ok.mp h
    cases hok
    rw [Fees.totalFees_of_new hfees, totalFeeComponentAmount_eq hfee]
    exact eq_comm
  · rw [if_neg hc] at hfee h
    rw [if_neg hc]
    cases hfee
    by_cases hpos : 0 < b.tradeFee.getD 0
    · rw [if_pos hpos] at h
      obtain ⟨fees, hfees, hok⟩ := except_bind_eq_ok.mp h
      cases hok
      rw [Fees.totalFees_of_new hfees]
      simp
    · rw [if_neg hpos] at h
      cases h
      have hzero : b.tradeFee.getD 0 = 0 := le_antisymm (not_lt.mp hpos) (not_lt.mp hneg)
      simp [hzero, Fees.totalFees]

/-! ## Redeemed quantities -/

theorem checks_checkRedemptionEligible :
    Checks checkRedemptionEligible fun s =>
      assertRedemptionCommandEligible s.transaction = .ok () := by
  unfold checkRedemptionEligible
  apply Checks.current (P := fun t _ => assertRedemptionCommandEligible t = .ok ())
  intro t
  cases h : assertRedemptionCommandEligible t with
  | ok u => exact Checks.congr checks_true (by simp)
  | error e => exact Checks.congr checks_report (by simp)

theorem redemptionEconomics_eq (s : CalculationState) (position cl cb : ℚ) :
    redemptionEconomics position cl cb s =
      match calculateRedemptionEconomics (redemptionTerms s.transaction position cl cb) with
      | .ok economics => .ok (some economics) s
      | .error e =>
        if e.isRedemptionCalculation then
          .ok none { s with errors := s.errors.add s.transaction.transactionId e.message }
        else .error e s := by
  show catching _ _ _ s = _
  unfold catching
  cases calculateRedemptionEconomics (redemptionTerms s.transaction position cl cb) with
  | ok economics => rfl
  | error e => rfl

theorem of_accepts_redemptionEconomics_bind {s s' : CalculationState} {position cl cb : ℚ}
    {f : Option RedemptionEconomics → Calc Unit}
    (h : Accepts (redemptionEconomics position cl cb >>= f) s s') (hf : f none = pure ()) :
    ∃ economics, calculateRedemptionEconomics (redemptionTerms s.transaction position cl cb) =
      .ok economics ∧ Accepts (f (some economics)) s s' := by
  obtain ⟨hrun, hc⟩ := h
  obtain ⟨r, s₁, hrun, hk⟩ := bind_eq_ok.mp hrun
  rw [redemptionEconomics_eq] at hrun
  cases he : calculateRedemptionEconomics (redemptionTerms s.transaction position cl cb) with
  | ok economics =>
    simp only [he] at hrun
    cases hrun
    exact ⟨economics, rfl, hk, hc⟩
  | error e =>
    simp only [he] at hrun
    split_ifs at hrun
    cases hrun
    rw [hf] at hk
    obtain ⟨-, rfl⟩ := pure_eq_ok.mp hk
    exact absurd hc (by simp [CalculationState.Clean, ErrorCollector.hasErrorsFor_add])

theorem CostBasisBooks.consumedQuantity_of_consume_zero {books books' : CostBasisBooks}
    {key : BookKey} {r : LotDisposalResult}
    (h : CostBasisBooks.consume key 0 books = .ok r books') :
    r.consumedQuantity = 0 := by
  have hsign : nonPositiveSellQuantityError 0 = none := rfl
  cases books with
  | fifo f =>
    obtain ⟨b, hb, -⟩ := CostBasisBooks.onBook_fifo_eq_ok.mp h
    unfold fifoConsume at hb
    simp only [bind_get_eq_ok, hsign] at hb
    split_ifs at hb
    · rw [(pure_eq_ok.mp hb).1]; rfl
    · rw [(pure_eq_ok.mp hb).1]; rfl
  | avco a ids =>
    obtain ⟨b, hb, -⟩ := CostBasisBooks.onBook_avco_eq_ok.mp h
    unfold avcoConsume at hb
    simp only [bind_get_eq_ok, hsign] at hb
    split_ifs at hb
    · rw [(pure_eq_ok.mp hb).1]; rfl
    · rw [(pure_eq_ok.mp hb).1]; rfl
    · rw [(pure_eq_ok.mp hb).1]; rfl

theorem consumeDisposalCostBasis_cases {s s' : CalculationState} {label : String}
    {o : Option LotDisposalResult} (h : consumeDisposalCostBasis label s = .ok o s') :
    (o = none ∧ ¬ s'.Clean) ∨ ∃ r b, o = some r ∧ 0 < r.consumedQuantity ∧
      CostBasisBooks.consume s.transaction.bookKey s.transaction.quantity s.engine.books =
        .ok r b := by
  unfold consumeDisposalCostBasis LotDispositionEngine.consume at h
  simp only [bind_current_eq_ok, bind_withEngine_eq_ok] at h
  obtain ⟨r', e, hr', h⟩ := h
  obtain ⟨r₁, e₁, hbooks, hstage⟩ := bind_eq_ok.mp hr'
  obtain ⟨b, hb, rfl⟩ := LotDispositionEngine.onBooks_eq_ok.mp hbooks
  have hsame : r' = r₁ := by
    split_ifs at hstage
    · obtain ⟨d, -, hstage⟩ := bind_liftM_eq_ok.mp hstage
      obtain ⟨_, e₂, -, hpure⟩ := bind_eq_ok.mp hstage
      exact (pure_eq_ok.mp hpure).1
    · exact (pure_eq_ok.mp hstage).1
  have hreport : ∀ (reason : String) (s₀ : CalculationState),
      (report reason >>= fun _ => pure none : Calc (Option LotDisposalResult)) s₀ = .ok o s' →
        o = none ∧ ¬ s'.Clean := by
    intro reason s₀ hrun
    obtain ⟨_, s₂, hs₂, hpure⟩ := bind_eq_ok.mp hrun
    obtain ⟨rfl, rfl⟩ := pure_eq_ok.mp hpure
    exact ⟨rfl, not_clean_of_report hs₂⟩
  cases hreason : r'.errorReason with
  | some reason =>
    simp only [hreason] at h
    exact .inl (hreport _ _ h)
  | none =>
    simp only [hreason] at h
    split_ifs at h with h1 h2
    · exact .inl (hreport _ _ h)
    · exact .inl (hreport _ _ h)
    · obtain ⟨rfl, -⟩ := pure_eq_ok.mp h
      exact .inr ⟨r', b, rfl, not_le.mp h1, hsame ▸ hb⟩

theorem keepsPosted_redemptionDisposal (label : String) (position : ℚ) :
    KeepsPosted (consumeDisposalCostBasis label >>= fun r =>
      match r with
      | none => pure ()
      | some result => redemptionEconomics position result.costLocal result.costBase >>= fun r =>
        match r with
        | none => pure ()
        | some economics => applyRedemptionFields result.costLocal result.costBase economics) := by
  refine Frame.bind (keepsPosted_consumeDisposalCostBasis _) fun result => ?_
  cases result with
  | none => exact Frame.pure _
  | some result =>
    refine Frame.bind (keepsPosted_redemptionEconomics _ _ _) fun economics => ?_
    cases economics with
    | none => exact Frame.pure _
    | some economics => exact keepsPosted_applyRedemptionFields _ _ _

theorem accepts_availableQuantity_bind {s s' : CalculationState} {f : ℚ → Calc Unit} :
    Accepts (availableQuantity >>= f) s s' ↔
      Accepts (f (s.engine.books.availableQuantity s.transaction.bookKey)) s s' := Iff.rfl

theorem quantity_of_accepts_redemptionStrategy {s s' : CalculationState}
    (h : Accepts redemptionStrategy s s') :
    resolveRedeemedQuantity (redemptionTerms s.transaction
      (s.engine.books.availableQuantity s.transaction.bookKey) 0 0) =
        .ok s'.transaction.quantity ∧ s'.transaction.quantity ≠ 0 := by
  unfold redemptionStrategy at h
  rw [checks_checkRedemptionEligible.accepts_ite, accepts_availableQuantity_bind] at h
  obtain ⟨preview, hpreview, h⟩ := of_accepts_redemptionEconomics_bind h.2 rfl
  have hresolved := (calculateRedemptionEconomics_eq_ok.mp hpreview).2.1
  dsimp only at h
  rw [accepts_update_bind, accepts_current_bind] at h
  have hkeep := keepsPosted_redemptionDisposal s.transaction.transactionType.code
    (s.engine.books.availableQuantity s.transaction.bookKey)
    { s with transaction := { s.transaction with quantity := preview.redeemedQuantity } }
  have hquantity : s'.transaction.quantity = preview.redeemedQuantity := by
    have hfinal := congrArg finalState h.1
    exact congrArg CostBasisTransaction.quantity (hfinal ▸ hkeep.transaction)
  rw [hquantity]
  refine ⟨hresolved, fun hzero => ?_⟩
  obtain ⟨result, s₁, hconsume, hrest⟩ := bind_eq_ok.mp h.1
  rcases consumeDisposalCostBasis_cases hconsume with ⟨rfl, hc⟩ | ⟨r, b, rfl, hpos, hb⟩
  · obtain ⟨-, rfl⟩ := pure_eq_ok.mp hrest
    exact hc h.2
  · simp only [hzero] at hb
    exact hpos.ne' (CostBasisBooks.consumedQuantity_of_consume_zero hb)

/-- The quantity a redemption resolves to is the booked one: a full redemption books the whole
position, a partial one a quantity of its own that the ledger holds. -/
def RedeemsAsBooked (type : TransactionType) (quantity position : ℚ) : Prop :=
  if type.isFullRedemption then quantize 10 position = quantity
  else quantity ≠ 0 ∧ OnGrid 10 quantity
  deriving Decidable

theorem requestedRedemptionQuantity_of_some {terms : RedemptionTerms} {booked q : ℚ}
    (hb : terms.redeemedQuantity = some booked)
    (h : requestedRedemptionQuantity terms = .ok q) : q = booked := by
  unfold requestedRedemptionQuantity at h
  rw [except_bind_eq_ok] at h
  obtain ⟨factor, -, h⟩ := h
  rw [hb] at h
  cases factor with
  | none => cases h; rfl
  | some f =>
    obtain ⟨_, -, hok⟩ := except_bind_eq_ok.mp h
    cases hok
    rfl

variable {t : CostBasisTransaction}

theorem resolveRedeemedQuantity_eq_booked_iff {position q : ℚ}
    (h : resolveRedeemedQuantity (redemptionTerms t position 0 0) = .ok q) (hq : q ≠ 0) :
    q = t.quantity ↔ RedeemsAsBooked t.transactionType t.quantity position := by
  unfold resolveRedeemedQuantity at h
  rw [except_bind_eq_ok] at h
  obtain ⟨requested, hrequested, h⟩ := h
  have htype : (redemptionTerms t position 0 0).transactionType = t.transactionType := rfl
  have hposition : (redemptionTerms t position 0 0).positionQuantity = position := rfl
  rw [htype, hposition] at h
  unfold RedeemsAsBooked
  by_cases hfull : t.transactionType.isFullRedemption = true
  · rw [if_pos hfull] at h ⊢
    split_ifs at h
    obtain ⟨_, -, h⟩ := except_bind_eq_ok.mp h
    rw [(Ledger.normalize_eq_ok.mp h).1]
  · rw [if_neg hfull] at h ⊢
    split_ifs at h
    have hnorm := (Ledger.normalize_eq_ok.mp h).1
    by_cases hzero : t.quantity = 0
    · simp [hzero, hq]
    · have hbooked : (redemptionTerms t position 0 0).redeemedQuantity = some t.quantity :=
        if_neg fun hc => hzero hc.1
      rw [hnorm, requestedRedemptionQuantity_of_some hbooked hrequested, ← onGrid_iff_quantize]
      exact ⟨fun hg => ⟨hzero, hg⟩, fun hg => hg.2⟩

/-! ## Completed calculations -/

variable {s : TimelineState}

theorem transactionId_of_processed {timeline : List CostBasisTransaction} :
    ∀ x ∈ (processSortedTimeline s timeline).2,
      ∃ t ∈ timeline, x.transactionId = t.transactionId := by
  induction timeline generalizing s with
  | nil => simp [processSortedTimeline]
  | cons t timeline ih =>
    intro x hx
    have hid := (calculateTransaction_calculated s t).read_eq (g := fun t => t.transactionId)
      fun _ => rfl
    have hmem : x = (calculateTransaction s t).2.1 ∨
        x ∈ (processSortedTimeline (calculateTransaction s t).1 timeline).2 := by
      simp only [processSortedTimeline] at hx
      split_ifs at hx
      · exact mem_cons.mp hx
      · exact .inr hx
    rcases hmem with rfl | hx
    · exact ⟨t, mem_cons_self, hid⟩
    · obtain ⟨y, hy, hxy⟩ := ih x hx
      exact ⟨y, mem_cons_of_mem _ hy, hxy⟩

variable {before after : List CostBasisTransaction}

theorem processSortedTimeline_split
    (h : (processSortedTimeline s (before ++ t :: after)).1.errors = []) :
    ∃ s' t', calculateTransaction (processSortedTimeline s before).1 t = (s', t', true) ∧
      (processSortedTimeline s (before ++ t :: after)).2 =
        (processSortedTimeline s before).2 ++ t' :: (processSortedTimeline s' after).2 := by
  rw [processSortedTimeline_append] at h ⊢
  obtain ⟨s', t', hrun, heq⟩ := processSortedTimeline_cons_of_accepted h
  exact ⟨s', t', hrun, by rw [heq]⟩

/-- The calculation of `t` on its own completes without an error: an increment on restored lots, or
a rebuild with the history of the security. It starts from `s`, and `processed` is its result. -/
inductive Completes (method : CostBasisMethod) (t : CostBasisTransaction) :
    TimelineState → List CostBasisTransaction → Prop
  | increment {lots : List CostBasisTransaction} {result : CostBasisTimelineResult}
      {restored : LotDispositionEngine}
      (hrestored : stateAfter (LotDispositionEngine.restoreOpenLots
        (sortTransactions [] (validTransactions lots))) (TimelineState.start method).engine =
          .ok restored)
      (hresult : processIncrement method lots [t] = .ok result) (herrors : result.errored = []) :
      Completes method t ⟨restored, []⟩ result.processed
  | rebuild {history before after : List CostBasisTransaction}
      (hids : ∀ x ∈ history, x.transactionId ≠ t.transactionId)
      (hsorted : sortTransactions [] (validTransactions (history ++ [t])) = before ++ t :: after)
      (herrors : (processTransactions method [] (history ++ [t])).errored = []) :
      Completes method t (processSortedTimeline (.start method) before).1
        (processTransactions method [] (history ++ [t])).processed

variable {method : CostBasisMethod}

theorem processIncrement_of_restored
    {lots new : List CostBasisTransaction} {restored : LotDispositionEngine}
    (h : stateAfter (LotDispositionEngine.restoreOpenLots
      (sortTransactions [] (validTransactions lots))) (TimelineState.start method).engine =
        .ok restored) :
    processIncrement method lots new = .ok (timelineResult
      (processSortedTimeline ⟨restored, []⟩ (sortTransactions [] (validTransactions new))).1
      (processSortedTimeline ⟨restored, []⟩ (sortTransactions [] (validTransactions new))).2) := by
  unfold processIncrement
  rw [h]
  rfl

theorem filter_processed_split {s s' : TimelineState}
    {t t' : CostBasisTransaction} (hid : t'.transactionId = t.transactionId)
    (hids : ∀ x ∈ before ++ after, x.transactionId ≠ t.transactionId) :
    (((processSortedTimeline s before).2 ++ t' :: (processSortedTimeline s' after).2).filter
      fun x => x.transactionId = t.transactionId) = [t'] := by
  have hother : ∀ (s : TimelineState) (l : List CostBasisTransaction), l ⊆ before ++ after →
      ((processSortedTimeline s l).2.filter fun x => x.transactionId = t.transactionId) = [] := by
    intro s l hl
    apply filter_eq_nil_iff.mpr
    intro x hx
    obtain ⟨y, hy, hxy⟩ := transactionId_of_processed x hx
    simp [hxy, hids y (hl hy)]
  rw [filter_append, filter_cons, hother s before (by simp), hother s' after (by simp)]
  simp [hid]

theorem Completes.root {processed : List CostBasisTransaction} (h : Completes method t s processed)
    (hparsed : t.errorReason = none) :
    ∃ s' t', calculateTransaction s t = (s', t', true) ∧
      (processed.filter fun x => x.transactionId = t.transactionId) = [t'] := by
  have hid : ∀ {s s' t'}, calculateTransaction s t = (s', t', true) →
      t'.transactionId = t.transactionId := by
    intro s s' t' hcalc
    have hread := (calculateTransaction_calculated s t).read_eq (g := fun t => t.transactionId)
      fun _ => rfl
    rwa [hcalc] at hread
  have hvalid : validTransactions [t] = [t] := validTransactions_of_parsed (by simp [hparsed])
  cases h with
  | @increment lots result restored hrestored hresult herrors =>
    have hsingle : sortTransactions [] (validTransactions [t]) = [] ++ t :: [] := by
      rw [hvalid]; rfl
    rw [processIncrement_of_restored hrestored, hsingle, Except.ok.injEq] at hresult
    rw [← hresult] at herrors
    obtain ⟨s', t', hcalc, hlist⟩ := processSortedTimeline_split herrors
    refine ⟨s', t', hcalc, ?_⟩
    rw [← hresult]
    show List.filter _ (processSortedTimeline _ _).2 = _
    rw [hlist]
    exact filter_processed_split (hid hcalc) (by simp)
  | @rebuild history before after hids hsorted herrors =>
    have hresult : processTransactions method [] (history ++ [t]) = timelineResult
        (processSortedTimeline (.start method) (before ++ t :: after)).1
        ((processSortedTimeline (.start method) (before ++ t :: after)).2.filter fun x =>
          x.transactionId ∈ (validTransactions (history ++ [t])).map (·.transactionId)) := by
      simp only [processTransactions, nil_append, hsorted]
    rw [hresult] at herrors ⊢
    obtain ⟨s', t', hcalc, hlist⟩ := processSortedTimeline_split herrors
    refine ⟨s', t', hcalc, ?_⟩
    have hsplit : validTransactions (history ++ [t]) = validTransactions history ++ [t] := by
      unfold validTransactions at hvalid ⊢
      rw [filter_append, hvalid]
    -- the other transactions of the timeline come from the history
    have hperm : (before ++ after).Perm (validTransactions history) := by
      have hsort : (before ++ t :: after).Perm (validTransactions history ++ [t]) := by
        rw [← hsorted, hsplit]
        exact perm_insertionSort _ _
      exact (perm_middle.symm.trans (hsort.trans (perm_append_singleton _ _))).cons_inv
    have hroot : (((processSortedTimeline (.start method) before).2 ++
        t' :: (processSortedTimeline s' after).2).filter
          fun x => x.transactionId = t.transactionId) = [t'] :=
      filter_processed_split (hid hcalc) fun x hx =>
        hids x (mem_of_mem_filter (hperm.subset hx))
    show List.filter _ (List.filter _ (processSortedTimeline _ _).2) = _
    rw [hlist, filter_filter]
    refine Eq.trans (filter_congr fun x _ => ?_) hroot
    by_cases hx : x.transactionId = t.transactionId
    · simp [hx, hsplit]
    · simp [hx]

/-! ## Persistable bookings -/

/-- The booking already has every value the calculation leaves: a tenant, the currency code in its
normal form (of ASCII letters, see `upper`), dates with a zone, fees that add up and, for a
redemption, the quantity it resolves to on the position. -/
structure Persistable (b : BookedTransaction) (position : ℚ) : Prop where
  tenant : b.tenantId ≠ ""
  currency : normalizeTransactionControlCode (some b.tradeCurrency) = b.tradeCurrency
  transactionDate : b.transactionDate.aware = true
  settlementDate : ∀ d ∈ b.settlementDate, d.aware = true
  fees : FeesAddUp b
  quantity : b.transactionType.isRedemption = true →
    RedeemsAsBooked b.transactionType b.quantity position

section Accepted

variable {s s' : TimelineState} {t t' : CostBasisTransaction}

/-- An accepted transaction differs from its booking in the currencies, the rate, the quantity and
the calculated fields only. -/
theorem routed_of_accepted (h : calculateTransaction s t = (s', t', true)) :
    t'.routed = (currencyContext t).routed := by
  obtain ⟨strategy, s₁, e, -, -, hstrategy, -, hs'⟩ :=
    accepts_calculateTransactionCosts.mp (calculateTransaction_eq_true_iff_accepts.mp h)
  have hkeep := strategy.keepsRouted
    { transaction := currencyContext t
      engine := s.engine.discarding t.transactionId
      errors := s.errors }
  have ht : t' = s₁.transaction := congrArg CalculationState.transaction hs'
  have hfinal : finalState (strategy.calculateCosts
      { transaction := currencyContext t
        engine := s.engine.discarding t.transactionId
        errors := s.errors }) = s₁ := congrArg finalState hstrategy.1
  rw [ht, ← hfinal]
  exact hkeep.transaction

theorem strategyFor_of_isRedemption (h : t.transactionType.isRedemption = true) :
    strategyFor t = some .redemption := by
  unfold strategyFor
  cases htype : t.transactionType <;> simp_all [TransactionType.isRedemption, cashStrategy,
    registeredStrategy]

theorem quantity_of_accepted (h : calculateTransaction s t = (s', t', true)) :
    t'.quantity = t.quantity ↔ (t.transactionType.isRedemption = true →
      RedeemsAsBooked t.transactionType t.quantity
        (s.engine.books.availableQuantity t.bookKey)) := by
  by_cases hred : t.transactionType.isRedemption = true
  · obtain ⟨strategy, s₁, e, hf, -, hstrategy, -, hs'⟩ :=
      accepts_calculateTransactionCosts.mp (calculateTransaction_eq_true_iff_accepts.mp h)
    have ht : t' = s₁.transaction := congrArg CalculationState.transaction hs'
    rw [strategyFor_of_isRedemption hred] at hf
    cases hf
    obtain ⟨hresolved, hzero⟩ := quantity_of_accepts_redemptionStrategy hstrategy
    have hiff := resolveRedeemedQuantity_eq_booked_iff hresolved hzero
    rw [ht]
    exact ⟨fun hq _ => hiff.mp hq, fun hq => hiff.mpr (hq hred)⟩
  · have hcalc := (calculateTransaction_calculated s t).quantity (by simpa using hred)
    rw [h] at hcalc
    exact ⟨fun _ hred' => absurd hred' hred, fun _ => hcalc⟩

end Accepted

theorem calculatedTimestamp_eq_iff (d : Timestamp) :
    calculatedTimestamp (standardizeDatetimeValue d).instant = d ↔ d.aware = true := by
  cases d
  simp [calculatedTimestamp, standardizeDatetimeValue, eq_comm]

theorem calculatedTimestamp_map_eq_iff (d : Option Timestamp) :
    (d.map fun d => (standardizeDatetimeValue d).instant).map calculatedTimestamp = d ↔
      ∀ x ∈ d, x.aware = true := by
  cases d with
  | none => simp
  | some d => simp [calculatedTimestamp_eq_iff]

/-- What is left to compare of an accepted transaction and its booking. -/
theorem calculatedSourceFieldsAgree_iff {b : BookedTransaction} {t t' : CostBasisTransaction}
    (hparse : parseTransaction b = .ok t) (hrouted : t'.routed = (currencyContext t).routed) :
    calculatedSourceFieldsAgree t' b = true ↔ b.transactionDate.aware = true ∧
      (∀ d ∈ b.settlementDate, d.aware = true) ∧ t'.quantity = b.quantity ∧
      normalizeTransactionControlCode (some b.tradeCurrency) = b.tradeCurrency := by
  unfold parseTransaction at hparse
  rw [except_bind_eq_ok] at hparse
  obtain ⟨input, -, hparse⟩ := hparse
  split_ifs at hparse
  cases hparse
  have htenant : t'.tenantId = b.tenantId := congrArg CostBasisTransaction.tenantId hrouted
  have hportfolio : t'.portfolioId = b.portfolioId :=
    congrArg CostBasisTransaction.portfolioId hrouted
  have hsecurity : t'.securityId = b.securityId := congrArg CostBasisTransaction.securityId hrouted
  have hid : t'.transactionId = b.transactionId :=
    congrArg CostBasisTransaction.transactionId hrouted
  have hinstrument : t'.instrumentId = b.instrumentId :=
    congrArg CostBasisTransaction.instrumentId hrouted
  have hdate : t'.transactionDate = (standardizeDatetimeValue b.transactionDate).instant :=
    congrArg CostBasisTransaction.transactionDate hrouted
  have hsettled : t'.settlementDate =
      b.settlementDate.map fun d => (standardizeDatetimeValue d).instant :=
    congrArg CostBasisTransaction.settlementDate hrouted
  have hgross : t'.grossTransactionAmount = b.grossTransactionAmount :=
    congrArg CostBasisTransaction.grossTransactionAmount hrouted
  have hcurrency : t'.tradeCurrency = normalizeTransactionControlCode (some b.tradeCurrency) :=
    congrArg CostBasisTransaction.tradeCurrency hrouted
  have hepoch : t'.epoch = b.epoch := congrArg CostBasisTransaction.epoch hrouted
  unfold calculatedSourceFieldsAgree
  rw [decide_eq_true_eq, htenant, hportfolio, hsecurity, hid, hinstrument, hdate, hsettled, hgross,
    hcurrency, hepoch, calculatedTimestamp_eq_iff, calculatedTimestamp_map_eq_iff]
  simp

/-- **Persistable roots.** The comparison with the booking accepts a transaction whose calculation
completed exactly if the booking already has the values the calculation leaves. -/
theorem validateIncomingFeeSource_iff {method : CostBasisMethod} {b : BookedTransaction}
    {processed : List CostBasisTransaction} (hparse : parseTransaction b = .ok t)
    (h : Completes method t s processed) :
    validateIncomingFeeSource b processed [b.transactionId] = .ok () ↔
      Persistable b (s.engine.books.availableQuantity t.bookKey) := by
  obtain ⟨input, hinput, ht⟩ := except_bind_eq_ok.mp hparse
  split_ifs at ht
  rw [Except.ok.injEq] at ht
  obtain ⟨s', t', hcalc, hroots⟩ := h.root (by rw [← ht])
  have hrouted := routed_of_accepted hcalc
  have hagree := calculatedSourceFieldsAgree_iff hparse hrouted
  have hquantity := quantity_of_accepted hcalc
  have hfees : t'.fees = t.fees := (congrArg CostBasisTransaction.fees hrouted :)
  have htype : t'.transactionType = t.transactionType :=
    (congrArg CostBasisTransaction.transactionType hrouted :)
  have hsource : t.transactionId = b.transactionId ∧ t.quantity = b.quantity ∧
      t.transactionType = b.transactionType ∧ t.fees = input.fees := by rw [← ht]; simp
  rw [hsource.1] at hroots
  rw [hsource.2.1, hsource.2.2.1] at hquantity
  rw [hsource.2.2.1] at htype
  rw [hsource.2.2.2] at hfees
  unfold validateIncomingFeeSource
  simp only [hroots, ne_eq, not_true_eq_false, if_false, htype, hinput, hfees]
  have htotal := totalFees_eq_tradeFee_iff hinput
  constructor
  · intro hok
    split_ifs at hok with h1
    · obtain ⟨expected, hexpected, hok⟩ := except_bind_eq_ok.mp hok
      cases hexpected
      split_ifs at hok with h3
      push Not at h1 h3
      obtain ⟨hdate, hsettled, hq, hcurrency⟩ := hagree.mp (by simpa using h1.2)
      exact ⟨h1.1, hcurrency, hdate, hsettled, htotal.mp h3.2, hquantity.mp hq⟩
  · intro hp
    have hfields : calculatedSourceFieldsAgree t' b = true :=
      hagree.mpr ⟨hp.transactionDate, hp.settlementDate, hquantity.mpr hp.quantity, hp.currency⟩
    rw [if_neg (by simp [hp.tenant, hfields])]
    refine except_bind_eq_ok.mpr ⟨input, rfl, if_neg ?_⟩
    simp [htotal.mpr hp.fees]

/-- The booking of a redemption of half a bond, of a quantity or, with 0, by the factors alone. -/
def bookedRedemption (quantity : ℚ) : BookedTransaction where
  transactionId := "R"
  portfolioId := "P"
  instrumentId := "I"
  securityId := "S"
  transactionDate := ⟨1, true⟩
  settlementDate := some ⟨1, true⟩
  transactionType := .partialRedemption
  quantity := quantity
  grossTransactionAmount := 50
  tradeCurrency := "USD"
  tenantId := "T"
  terms := factorRedemption

def parsedRedemption (quantity : ℚ) : CostBasisTransaction :=
  { factorRedemption with quantity := quantity, tenantId := "T" }

/-- After the purchase of 100 units, a redemption booked with its 50 units is persistable. -/
theorem validateIncomingFeeSource_booked_quantity :
    parseTransaction (bookedRedemption 50) = .ok (parsedRedemption 50) ∧
    validateIncomingFeeSource (bookedRedemption 50)
      (processTransactions .fifo []
        ([bookedTrade "B" .buy 0 100 100] ++ [parsedRedemption 50])).processed ["R"] = .ok () := by
  have hparse : parseTransaction (bookedRedemption 50) = .ok (parsedRedemption 50) := by
    decide +kernel
  have hids : ∀ x ∈ [bookedTrade "B" .buy 0 100 100],
      x.transactionId ≠ (parsedRedemption 50).transactionId := by decide +kernel
  have hsorted : sortTransactions [] (validTransactions
      ([bookedTrade "B" .buy 0 100 100] ++ [parsedRedemption 50])) =
        [bookedTrade "B" .buy 0 100 100] ++ parsedRedemption 50 :: [] := by decide +kernel
  have herrors : (processTransactions .fifo []
      ([bookedTrade "B" .buy 0 100 100] ++ [parsedRedemption 50])).errored = [] := by
    decide +kernel
  refine ⟨hparse, (validateIncomingFeeSource_iff hparse (.rebuild hids hsorted herrors)).mpr ?_⟩
  constructor <;> decide +kernel

/-- The same redemption by its factors completes with 50 units, but 0 are booked. -/
theorem validateIncomingFeeSource_factor_quantity :
    parseTransaction (bookedRedemption 0) = .ok (parsedRedemption 0) ∧
    (processTransactions .fifo []
      ([bookedTrade "B" .buy 0 100 100] ++ [parsedRedemption 0])).errored = [] ∧
    validateIncomingFeeSource (bookedRedemption 0)
      (processTransactions .fifo []
        ([bookedTrade "B" .buy 0 100 100] ++ [parsedRedemption 0])).processed ["R"] =
          .error (.valueError
        "Incoming fee source conflicts with calculated root scope or material") := by
  refine ⟨?_, ?_, ?_⟩
  · decide +kernel
  · decide +kernel
  · decide +kernel

end LotusCore
