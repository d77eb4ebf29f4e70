import LotusCore.Settlement.Cashflow

/-!
# Cash legs supplied from upstream

A product transaction may name a cash leg that its source books itself. The pair is checked by
identifiers and by magnitude; the direction and the currency of the leg are read later, by the
cashflow and the position calculation.

* `validateUpstreamCashLegPairing`: the check.
* `calculateTransactionCashflow_adjustment`: the cashflow of an adjustment.
* **`upstream_cash_equals_settlement_iff`**: which accepted legs move the settlement cash.
-/

namespace LotusCore.Settlement

open Decimal Exec Ledger

/-! ## The check -/

/-- `UpstreamCashLegPairingIssue`. The amount a text ends with is left out. -/
structure PairingIssue where
  field : String
  message : String
  deriving DecidableEq

def issueUnless (ok : Prop) [Decidable ok] (field message : String) : List PairingIssue :=
  if ok then [] else [⟨field, message⟩]

def validateSharedIdentifier (field : String) (productValue cashValue : Option String) :
    List PairingIssue :=
  issueUnless
    (strip (productValue.getD "") ≠ "" ∧ strip (productValue.getD "") = strip (cashValue.getD ""))
    field ("product and cash legs must carry the same non-empty " ++ field ++ ".")

def validateSettlementAmount (product cash : BookedTransaction) :
    Except SettlementError (List PairingIssue) :=
  if isOrdinarySettlement product.transactionType then do
    let movement ← calculateSettlementCashMovement product
    .ok (issueUnless (cash.grossTransactionAmount = movement.amount) "gross_transaction_amount"
      "cash leg gross_transaction_amount must equal the canonical net settlement amount")
  else .ok []

def validateUpstreamCashLegPairing (product cash : BookedTransaction) :
    Except SettlementError (List PairingIssue) := do
  let mode ← resolveCashEntryMode product.cashEntryMode
  let amountIssues ← validateSettlementAmount product cash
  .ok
    (issueUnless (mode = .upstreamProvided) "cash_entry_mode"
        "product leg cash_entry_mode must be UPSTREAM_PROVIDED." ++
      issueUnless (product.portfolioId = cash.portfolioId) "portfolio_id"
        "product and cash legs must belong to the same portfolio_id." ++
      issueUnless (product.externalCashTransactionId = some cash.transactionId)
        "external_cash_transaction_id"
        "product leg external_cash_transaction_id must match cash leg transaction_id." ++
      issueUnless (cash.transactionType = .adjustment) "transaction_type"
        "cash leg transaction_type must be ADJUSTMENT." ++
      issueUnless (0 < cash.grossTransactionAmount) "gross_transaction_amount"
        "cash leg gross_transaction_amount must be greater than zero." ++
      amountIssues ++
      validateSharedIdentifier "economic_event_id" product.economicEventId cash.economicEventId ++
      validateSharedIdentifier "linked_transaction_group_id" product.linkedTransactionGroupId
        cash.linkedTransactionGroupId)

theorem issueUnless_eq_nil {ok : Prop} [Decidable ok] {field message : String} :
    issueUnless ok field message = [] ↔ ok := by
  unfold issueUnless
  split <;> simp [*]

theorem amounts_of_accepted {product cash : BookedTransaction}
    (hordinary : isOrdinarySettlement product.transactionType)
    (h : validateUpstreamCashLegPairing product cash = .ok []) :
    cash.transactionType = .adjustment ∧ 0 < cash.grossTransactionAmount ∧
      ∃ movement, calculateSettlementCashMovement product = .ok movement ∧
        cash.grossTransactionAmount = |movement.signedAmount| := by
  unfold validateUpstreamCashLegPairing at h
  obtain ⟨mode, -, h⟩ := except_bind_eq_ok.mp h
  obtain ⟨amountIssues, hamount, h⟩ := except_bind_eq_ok.mp h
  rw [validateSettlementAmount, if_pos hordinary] at hamount
  obtain ⟨movement, hmovement, hissues⟩ := except_bind_eq_ok.mp hamount
  simp only [Except.ok.injEq, List.append_eq_nil_iff, issueUnless_eq_nil] at h hissues
  obtain ⟨⟨⟨⟨⟨⟨⟨-, -⟩, -⟩, htype⟩, hpos⟩, hnil⟩, -⟩, -⟩ := h
  rw [hnil, issueUnless_eq_nil] at hissues
  exact ⟨htype, hpos, movement, hmovement, hissues⟩

/-! ## Reported cashflows -/

section Cashflow

variable {t : BookedTransaction} {rule : CashflowRule} {type : TransactionType}
  {context : CalculationContext} {epoch : Option ℤ} {a : ℚ} {currency : String}

theorem ofDecimal_eq_ok {α : Type} {x : Except Raised α} {y : α} :
    ofDecimal x = .ok y ↔ x = .ok y := by
  cases x <;> simp [ofDecimal]

theorem exists_cashflow_iff :
    (∃ flow, calculateTransactionCashflow t rule epoch context = .ok flow ∧ flow.amount = a ∧
      flow.currency = currency) ↔
    ∃ economics, resolveCashflowEconomics t rule (processingType t) context = .ok economics ∧
      (∃ fee, resolveFeeAmount t = .ok fee) ∧ quantize 10 economics.amount = a ∧ Storable a ∧
      economics.currency = currency := by
  unfold calculateTransactionCashflow
  constructor
  · rintro ⟨flow, hflow, rfl, rfl⟩
    obtain ⟨economics, heconomics, hflow⟩ := except_bind_eq_ok.mp hflow
    obtain ⟨fee, hfee, hflow⟩ := except_bind_eq_ok.mp hflow
    obtain ⟨amount, hamount, hflow⟩ := except_bind_eq_ok.mp hflow
    rw [ofDecimal_eq_ok, normalize_eq_ok] at hamount
    cases hflow
    exact ⟨economics, heconomics, ⟨fee, hfee⟩, hamount.1.symm, hamount.2, rfl⟩
  · rintro ⟨economics, heconomics, ⟨fee, hfee⟩, rfl, hstorable, rfl⟩
    have hamount : ofDecimal (cashflowLedger.normalize economics.amount "cashflows.amount") =
        .ok (quantize 10 economics.amount) :=
      ofDecimal_eq_ok.mpr (normalize_eq_ok.mpr ⟨rfl, hstorable⟩)
    simp only [heconomics, hfee, hamount, bind, Except.bind]
    exact ⟨_, rfl, rfl, rfl⟩

theorem signedMagnitude_workingRound (positive : Bool) (x : ℚ) :
    signedMagnitude positive (workingRound x) =
      if positive then |workingRound x| else -|workingRound x| := by
  unfold signedMagnitude
  rw [workingRound_abs, workingRound_workingRound, workingRound_neg,
    ← workingRound_abs, workingRound_workingRound, workingRound_abs]

/-- What an adjustment or the component of an exchange of currencies reports: its gross amount less
its fee, signed. -/
theorem amount_of_resolveCashflowEconomics {economics : CashflowEconomics}
    (hsynthetic : t.hasSyntheticFlow ≠ some true) (hordinary : isOrdinarySettlement type = false)
    (htype : type ≠ .fee) (h : resolveCashflowEconomics t rule type context = .ok economics) :
    ∃ fee, resolveFeeAmount t = .ok fee ∧ economics.currency = t.currency ∧ economics.amount =
      signedCashflowAmount t rule type (workingRound (t.grossTransactionAmount - fee)) := by
  have hredemption : type.isRedemption = false := by
    cases type <;> first | rfl | cases hordinary
  have hbuy : type ≠ .buy := by rintro rfl; cases hordinary
  rw [resolveCashflowEconomics, if_neg hsynthetic] at h
  obtain ⟨amount, hamount, heconomics⟩ := except_bind_eq_ok.mp h
  cases heconomics
  rw [settledCashflowAmount, if_neg (by simp [hredemption]),
    if_neg (by simp [hordinary])] at hamount
  obtain ⟨base, hbase, rfl⟩ := except_map_eq_ok.mp hamount
  obtain ⟨fee, hfee, hbase⟩ := except_bind_eq_ok.mp hbase
  refine ⟨fee, hfee, rfl, ?_⟩
  split at hbase
  · cases hbase
  · rw [if_neg (by simp [hbuy, htype])] at hbase
    cases hbase
    rfl

theorem resolveCashflowEconomics_adjustment {fee : ℚ}
    (hsynthetic : t.hasSyntheticFlow ≠ some true) (hfee : resolveFeeAmount t = .ok fee) :
    resolveCashflowEconomics t rule .adjustment context =
      .ok ⟨signedAdjustmentAmount t (workingRound (t.grossTransactionAmount - fee)), t.currency,
        .net⟩ := by
  simp [resolveCashflowEconomics, settledCashflowAmount, hsynthetic, TransactionType.isRedemption,
    isOrdinarySettlement,
    baseCashflowAmount, hfee, signedCashflowAmount, bind, Except.bind, Functor.map, Except.map]

def legDirection (t : BookedTransaction) : String :=
  normalizeTransactionControlCode (some (orText t.movementDirection "INFLOW"))

/-- The leg reports its gross amount in full: it bears no fee, and the column holds it. -/
def ReportsGross (t : BookedTransaction) : Prop :=
  ∃ fee, resolveFeeAmount t = .ok fee ∧ Storable t.grossTransactionAmount ∧
    quantize 10 |workingRound (t.grossTransactionAmount - fee)| = t.grossTransactionAmount

theorem calculateTransactionCashflow_adjustment (hsynthetic : t.hasSyntheticFlow ≠ some true)
    (htype : processingType t = .adjustment) :
    (∃ flow, calculateTransactionCashflow t rule epoch context = .ok flow ∧ flow.amount = a ∧
      flow.currency = currency) ↔
    ∃ fee, resolveFeeAmount t = .ok fee ∧ Storable a ∧ t.currency = currency ∧
      (if legDirection t = "INFLOW" then quantize 10 |workingRound (t.grossTransactionAmount - fee)|
        else -quantize 10 |workingRound (t.grossTransactionAmount - fee)|) = a := by
  rw [exists_cashflow_iff, htype]
  have hsigned (fee : ℚ) :
      quantize 10 (signedAdjustmentAmount t (workingRound (t.grossTransactionAmount - fee))) =
        if legDirection t = "INFLOW" then
          quantize 10 |workingRound (t.grossTransactionAmount - fee)|
        else -quantize 10 |workingRound (t.grossTransactionAmount - fee)| := by
    rw [signedAdjustmentAmount, signedMagnitude_workingRound, legDirection]
    by_cases h : normalizeTransactionControlCode (some (orText t.movementDirection "INFLOW")) =
        "INFLOW"
    · simp [h]
    · simp [h, quantize_neg]
  constructor
  · rintro ⟨economics, heconomics, ⟨fee, hfee⟩, hamount, hstorable, hcurrency⟩
    rw [resolveCashflowEconomics_adjustment hsynthetic hfee] at heconomics
    cases heconomics
    exact ⟨fee, hfee, hstorable, hcurrency, (hsigned fee).symm.trans hamount⟩
  · rintro ⟨fee, hfee, hstorable, hcurrency, hamount⟩
    exact ⟨_, resolveCashflowEconomics_adjustment hsynthetic hfee, ⟨fee, hfee⟩,
      (hsigned fee).trans hamount, hstorable, hcurrency⟩

theorem positionRound_eq_workingRound (x : ℚ) : positionRound x = workingRound x := by
  have hcontext : positionHistoryLedger.arithmeticContext =
      (ledgerPolicy "" "").arithmeticContext :=
    rfl
  unfold positionRound workingRound CalculatedDecimalPolicy.round
  rw [hcontext]

theorem cashPositionAmountDelta_adjustment (terms : CostBasisTransaction)
    (hgross : 0 ≤ terms.grossTransactionAmount)
    (hzero : terms.grossTransactionAmount = 0 → terms.quantity = 0) :
    cashPositionAmountDelta terms .adjustment =
      if normalizeTransactionControlCode (some (orText terms.movementDirection "INFLOW")) =
          "OUTFLOW"
      then -workingRound terms.grossTransactionAmount
      else workingRound terms.grossTransactionAmount := by
  have hamount : |if terms.grossTransactionAmount ≠ 0 then terms.grossTransactionAmount
      else terms.quantity| = terms.grossTransactionAmount := by
    split_ifs with hne
    · exact abs_of_nonneg hgross
    · rw [not_not.mp hne, hzero (not_not.mp hne), abs_zero]
  have hread : cashPositionAmountDelta terms .adjustment =
      if normalizeTransactionControlCode (some (orText terms.movementDirection "INFLOW")) =
          "OUTFLOW"
      then positionRound (-positionRound |if terms.grossTransactionAmount ≠ 0 then
        terms.grossTransactionAmount else terms.quantity|)
      else positionRound |if terms.grossTransactionAmount ≠ 0 then terms.grossTransactionAmount
        else terms.quantity| := by
    unfold cashPositionAmountDelta
    cases terms.movementDirection with
    | none => rfl
    | some text => rfl
  rw [hread, hamount, positionRound_eq_workingRound, positionRound_eq_workingRound,
    workingRound_neg, workingRound_workingRound]

theorem cashQuantityDelta_adjustment (htype : processingType t = .adjustment)
    (hgross : 0 ≤ t.grossTransactionAmount)
    (hzero : t.grossTransactionAmount = 0 → t.quantity = 0) :
    cashQuantityDelta t =
      if legDirection t = "OUTFLOW" then -workingRound t.grossTransactionAmount
      else workingRound t.grossTransactionAmount := by
  rw [cashQuantityDelta, htype]
  exact cashPositionAmountDelta_adjustment (positionTerms t) hgross hzero

end Cashflow

/-! ## The settlement of an accepted pair -/

/-- A component of an exchange of currencies is none of the ordinary settlements. -/
theorem processingType_cases (t : BookedTransaction) (h : t.transactionType = .adjustment) :
    processingType t = .adjustment ∨
      (isOrdinarySettlement (processingType t) = false ∧ processingType t ≠ .fee ∧
        processingType t ≠ .adjustment) := by
  unfold processingType effectiveProcessingType
  split
  · exact .inr ⟨rfl, by simp, by simp⟩
  · exact .inr ⟨rfl, by simp, by simp⟩
  · exact .inr ⟨rfl, by simp, by simp⟩
  · exact .inr ⟨rfl, by simp, by simp⟩
  · exact .inl h

/-- The cash views of the leg show the amount `s` in the currency, its cashflow under the rule. -/
def ShowsCash (rule : CashflowRule) (cash : BookedTransaction) (s : ℚ) (currency : String) : Prop :=
  (∀ epoch context, ∃ flow, calculateTransactionCashflow cash rule epoch context = .ok flow ∧
    flow.amount = s ∧ flow.currency = currency) ∧ cashQuantityDelta cash = s

section Shows

variable {rule : CashflowRule} {cash : BookedTransaction} {s : ℚ} {currency : String}

theorem not_synthetic_of_showsCash (h : ∀ rule, ShowsCash rule cash s currency) :
    cash.hasSyntheticFlow ≠ some true := by
  intro hsynthetic
  obtain ⟨flow, hflow, -, -⟩ := (h ⟨.expense, "", true, false⟩).1 none .currentBooking
  obtain ⟨economics, heconomics, -⟩ := exists_cashflow_iff.mp ⟨flow, hflow, rfl, rfl⟩
  rw [resolveCashflowEconomics, if_pos hsynthetic, syntheticTransferEconomics,
    if_pos (by simp)] at heconomics
  cases heconomics

theorem adjustment_of_showsCash (h : ∀ rule, ShowsCash rule cash s currency)
    (htype : cash.transactionType = .adjustment) (hs : s ≠ 0) :
    processingType cash = .adjustment := by
  rcases processingType_cases cash htype with hadjustment | ⟨hordinary, hfee, hadjustment⟩
  · exact hadjustment
  exfalso
  have hsigned (classification : CashflowClassification) (hc : classification ≠ .transfer) :
      ∃ fee, resolveFeeAmount cash = .ok fee ∧ s = quantize 10 (signedMagnitude
        classification.isPositive (workingRound (cash.grossTransactionAmount - fee))) := by
    obtain ⟨economics, heconomics, -, hamount, -⟩ :=
      exists_cashflow_iff.mp ((h ⟨classification, "", true, false⟩).1 none .currentBooking)
    obtain ⟨fee, hresolve, -, hsigned⟩ :=
      amount_of_resolveCashflowEconomics (not_synthetic_of_showsCash h) hordinary hfee heconomics
    rw [signedCashflowAmount, if_neg hadjustment, if_neg hc] at hsigned
    exact ⟨fee, hresolve, by rw [← hamount, hsigned]⟩
  obtain ⟨fee, hresolve, hincome⟩ := hsigned .income (by simp)
  obtain ⟨fee', hresolve', hexpense⟩ := hsigned .expense (by simp)
  obtain rfl : fee = fee' := by rw [hresolve] at hresolve'; exact Except.ok.inj hresolve'
  rw [signedMagnitude_workingRound] at hincome hexpense
  simp only [CashflowClassification.isPositive, if_true, Bool.false_eq_true, if_false,
    quantize_neg] at hincome hexpense
  exact hs (by linarith)

/-- For an adjustment the two views agree with the amount exactly if currency, direction and
magnitude do. -/
theorem ShowsCash.iff_of_adjustment (hsynthetic : cash.hasSyntheticFlow ≠ some true)
    (htype : processingType cash = .adjustment) (hgross : cash.grossTransactionAmount = |s|)
    (hs : s ≠ 0) :
    ShowsCash rule cash s currency ↔ cash.currency = currency ∧
      legDirection cash = (if 0 < s then "INFLOW" else "OUTFLOW") ∧ ReportsGross cash := by
  have hpos : 0 < cash.grossTransactionAmount := hgross ▸ abs_pos.mpr hs
  have hround := workingRound_nonneg hpos.le
  have hmoved := cashQuantityDelta_adjustment htype hpos.le fun hzero => absurd hzero hpos.ne'
  constructor
  · rintro ⟨hflow, hdelta⟩
    obtain ⟨fee, hfee, hstorable, hcurrency, hamount⟩ :=
      (calculateTransactionCashflow_adjustment hsynthetic htype).mp (hflow none .currentBooking)
    rw [hmoved] at hdelta
    have hq : 0 ≤ quantize 10 |workingRound (cash.grossTransactionAmount - fee)| :=
      quantize_nonneg (abs_nonneg _)
    rcases lt_or_gt_of_ne hs with hneg | hpositive
    · -- a negative quantity is only moved by an outflow
      have hdirection : legDirection cash = "OUTFLOW" := by
        by_contra hne
        rw [if_neg hne] at hdelta
        linarith
      rw [hdirection, if_neg (by decide)] at hamount
      rw [abs_of_neg hneg] at hgross
      refine ⟨hcurrency, by rw [hdirection, if_neg hneg.le.not_gt], fee, hfee, ?_, by linarith⟩
      rw [hgross]
      exact hstorable.neg
    · -- a positive cashflow is only reported by an inflow
      have hdirection : legDirection cash = "INFLOW" := by
        by_contra hne
        rw [if_neg hne] at hamount
        linarith
      rw [if_pos hdirection] at hamount
      rw [abs_of_pos hpositive] at hgross
      refine ⟨hcurrency, by rw [hdirection, if_pos hpositive], fee, hfee, ?_,
        by rw [hamount, hgross]⟩
      rw [hgross]
      exact hstorable
  · rintro ⟨hcurrency, hdirection, fee, hfee, hstorable, hamount⟩
    have hexact : workingRound cash.grossTransactionAmount = cash.grossTransactionAmount := by
      obtain ⟨hgrid, hbound⟩ := storable_iff.mp hstorable
      exact workingRound_of_onGrid hgrid (hbound.trans (by norm_num))
    unfold ShowsCash
    simp only [calculateTransactionCashflow_adjustment hsynthetic htype]
    rw [hexact] at hmoved
    rcases lt_or_gt_of_ne hs with hneg | hpositive
    · rw [if_neg hneg.le.not_gt] at hdirection
      rw [abs_of_neg hneg] at hgross
      rw [if_pos hdirection, hgross, neg_neg] at hmoved
      rw [hgross] at hamount hstorable
      refine ⟨fun _ _ => ⟨fee, hfee, neg_neg s ▸ hstorable.neg, hcurrency, ?_⟩, hmoved⟩
      rw [hdirection, if_neg (by decide), hgross, hamount, neg_neg]
    · rw [if_pos hpositive] at hdirection
      rw [abs_of_pos hpositive] at hgross
      rw [hdirection, if_neg (by decide), hgross] at hmoved
      rw [hgross] at hamount hstorable
      refine ⟨fun _ _ => ⟨fee, hfee, hstorable, hcurrency, ?_⟩, hmoved⟩
      rw [if_pos hdirection, hgross, hamount]

end Shows

/-- **Upstream settlement.** Which accepted cash legs show, in the cashflow and in the position, the
canonical settlement of their product, under every rule and, for an adjustment, under one. -/
theorem upstream_cash_equals_settlement_iff {product cash : BookedTransaction}
    (hordinary : isOrdinarySettlement product.transactionType)
    (haccepted : validateUpstreamCashLegPairing product cash = .ok []) :
    ∃ movement, calculateSettlementCashMovement product = .ok movement ∧
      ((∀ rule, ShowsCash rule cash movement.signedAmount product.currency) ↔
        cash.hasSyntheticFlow ≠ some true ∧ processingType cash = .adjustment ∧
          cash.currency = product.currency ∧ legDirection cash = movement.movementDirection ∧
          ReportsGross cash) ∧
      ∀ rule, cash.hasSyntheticFlow ≠ some true → processingType cash = .adjustment →
        (ShowsCash rule cash movement.signedAmount product.currency ↔
          cash.currency = product.currency ∧ legDirection cash = movement.movementDirection ∧
            ReportsGross cash) := by
  obtain ⟨htype, hpos, movement, hmovement, hgross⟩ := amounts_of_accepted hordinary haccepted
  have hs : movement.signedAmount ≠ 0 := by
    rw [hgross] at hpos
    exact abs_pos.mp hpos
  have hrule (rule : CashflowRule) (hsynthetic : cash.hasSyntheticFlow ≠ some true)
      (hadjustment : processingType cash = .adjustment) :
      ShowsCash rule cash movement.signedAmount product.currency ↔ _ :=
    ShowsCash.iff_of_adjustment hsynthetic hadjustment hgross hs
  refine ⟨movement, hmovement, ⟨fun h => ?_, fun ⟨hsynthetic, hadjustment, h⟩ rule => ?_⟩, hrule⟩
  · have hsynthetic := not_synthetic_of_showsCash h
    have hadjustment := adjustment_of_showsCash h htype hs
    exact ⟨hsynthetic, hadjustment,
      (hrule ⟨.income, "", true, false⟩ hsynthetic hadjustment).mp (h _)⟩
  · exact (hrule rule hsynthetic hadjustment).mpr h

def upstreamPurchase : BookedTransaction where
  transactionId := "T1"
  portfolioId := "P1"
  instrumentId := "I1"
  securityId := "S1"
  transactionDate := 0
  transactionType := .buy
  quantity := 10
  price := 10
  grossTransactionAmount := 100
  tradeCurrency := "USD"
  currency := "USD"
  cashEntryMode := some "UPSTREAM_PROVIDED"
  externalCashTransactionId := some "C1"
  economicEventId := some "E1"
  linkedTransactionGroupId := some "G1"

/-- A leg of 100 for `upstreamPurchase`. -/
def upstreamLeg (direction : Option String) : BookedTransaction where
  transactionId := "C1"
  portfolioId := "P1"
  instrumentId := "CASH-USD"
  securityId := "CASH-USD"
  transactionDate := 0
  transactionType := .adjustment
  quantity := 0
  price := 0
  grossTransactionAmount := 100
  tradeCurrency := "USD"
  currency := "USD"
  economicEventId := some "E1"
  linkedTransactionGroupId := some "G1"
  movementDirection := direction

theorem upstream_cash_equals_settlement_outflow :
    validateUpstreamCashLegPairing upstreamPurchase (upstreamLeg (some "OUTFLOW")) = .ok [] ∧
      ∀ rule, ShowsCash rule (upstreamLeg (some "OUTFLOW")) (-100) "USD" := by
  have haccepted : validateUpstreamCashLegPairing upstreamPurchase (upstreamLeg (some "OUTFLOW")) =
      .ok [] := by decide +kernel
  refine ⟨haccepted, ?_⟩
  obtain ⟨movement, hmovement, hiff, -⟩ := upstream_cash_equals_settlement_iff rfl haccepted
  have hbuy : calculateSettlementCashMovement upstreamPurchase =
      .ok ⟨-100, 0, "BUY_SETTLEMENT"⟩ := by decide +kernel
  obtain rfl : movement = ⟨-100, 0, "BUY_SETTLEMENT"⟩ :=
    Except.ok.inj (hmovement.symm.trans hbuy)
  exact hiff.mpr ⟨by decide, by decide +kernel, rfl, by decide +kernel, 0, by decide +kernel,
    by decide +kernel, by decide +kernel⟩

/-- Without a direction the leg of a purchase is accepted and adds the cash. -/
theorem upstream_leg_adds_cash :
    validateUpstreamCashLegPairing upstreamPurchase (upstreamLeg none) = .ok [] ∧
      (calculateSettlementCashMovement upstreamPurchase).toOption.map
        SettlementCashMovement.signedAmount = some (-100) ∧
      (calculateTransactionCashflow (upstreamLeg none) ⟨.transfer, "BOD", true, true⟩ none
        .currentBooking).toOption.map CalculatedCashflow.amount = some 100 ∧
      cashQuantityDelta (upstreamLeg none) = 100 := by
  decide +kernel

end LotusCore.Settlement
