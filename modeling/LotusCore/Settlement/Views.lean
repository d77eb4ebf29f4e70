import Mathlib.Data.List.ReduceOption
import LotusCore.Settlement.UpstreamPairing

/-!
# Every view of a settlement

The cash of a settled product is computed four times: by the settlement policy, by the cashflow of
the product, by the generated cash leg, and by the position that the leg moves.

* `buildGeneratedSettlementCashLeg_eq_ok`: what a generated leg carries.
* `showsCash_of_generated`: the two views of the leg.
* `historical_amount`: a rebuild of history signs as current booking does.
* **`settlement_views_agree`**: all views show the settlement amount.
-/

namespace LotusCore.Settlement

open Decimal Exec Ledger List

/-! ## The settlement amount -/

variable {x : ℚ} {a : ℚ}

section Amount

variable {t : BookedTransaction} {m : SettlementCashMovement} {fee : ℚ}

def amounts (t : BookedTransaction) : List ℚ :=
  t.grossTransactionAmount ::
    [t.tradeFee, t.brokerage, t.stampDuty, t.exchangeFee, t.gst, t.otherFees,
      t.withholdingTaxAmount, t.otherInterestDeductionsAmount, t.netInterestAmount,
      t.principalProceedsLocal, t.accruedInterestProceedsLocal, t.embeddedFeeAmountLocal,
      t.embeddedTaxAmountLocal].reduceOption

theorem onGrid_getD {x : Option ℚ} (h : ∀ a, x = some a → OnGrid 10 a) : OnGrid 10 (x.getD 0) := by
  cases x with
  | none => exact OnGrid.zero 10
  | some a => exact h a rfl

theorem onGrid_workingRound (h : OnGrid 10 x) : OnGrid 10 (workingRound x) :=
  (ledgerPolicy "" "").arithmeticContext.onGrid_round h

theorem ensureNonNegativeFeeAmount_eq_ok {amount fee : ℚ} {fieldName : String} :
    ensureNonNegativeFeeAmount amount fieldName = .ok fee ↔ fee = amount ∧ 0 ≤ amount := by
  unfold ensureNonNegativeFeeAmount
  split_ifs with hneg
  · simp [hneg.not_ge]
  · simp [not_lt.mp hneg, eq_comm]

theorem totalFeeComponentAmount_spec :
    ∀ {components : List (String × Option ℚ)} {total fee : ℚ}, OnGrid 10 total → 0 ≤ total →
      (∀ c ∈ components, ∀ a, c.2 = some a → OnGrid 10 a) →
      totalFeeComponentAmount total components = .ok fee → OnGrid 10 fee ∧ 0 ≤ fee
  | [], total, fee, htotal, hnonneg, _, h => by
    cases h
    exact ⟨htotal, hnonneg⟩
  | (fieldName, value) :: rest, total, fee, htotal, hnonneg, hgrid, h => by
    obtain ⟨amount, hamount, hrest⟩ := except_bind_eq_ok.mp h
    obtain ⟨rfl, hvalue⟩ := ensureNonNegativeFeeAmount_eq_ok.mp hamount
    have hsum := htotal.add (onGrid_getD (hgrid _ mem_cons_self))
    exact totalFeeComponentAmount_spec (onGrid_workingRound hsum)
      (workingRound_nonneg (add_nonneg hnonneg hvalue))
      (fun c hc => hgrid c (mem_cons_of_mem _ hc)) hrest

/-- A resolved fee is never negative, and has the decimals of the booked amounts. -/
theorem resolveFeeAmount_spec (hgrid : ∀ a ∈ amounts t, OnGrid 10 a)
    (h : resolveFeeAmount t = .ok fee) : OnGrid 10 fee ∧ 0 ≤ fee := by
  obtain ⟨resolved, hresolved, hfee⟩ := except_bind_eq_ok.mp h
  cases hfee
  have hmem {a : ℚ} {x : Option ℚ} (hx : x ∈ [t.tradeFee, t.brokerage, t.stampDuty, t.exchangeFee,
      t.gst, t.otherFees]) (ha : x = some a) : OnGrid 10 a := by
    refine hgrid a (mem_cons_of_mem _ (reduceOption_mem_iff.mpr ?_))
    rw [← ha]
    exact mem_append_left _ hx
  obtain ⟨trade, htrade, hresolved⟩ := except_bind_eq_ok.mp hresolved
  split at hresolved
  · -- no component is booked: the trade fee
    cases hresolved
    unfold bookedTradeFee at htrade
    split at htrade
    · cases htrade
      exact ⟨OnGrid.zero 10, le_rfl⟩
    · next trade' heq =>
      obtain ⟨amount, hamount, rfl⟩ := except_map_eq_ok.mp htrade
      obtain ⟨rfl, hnonneg⟩ := ensureNonNegativeFeeAmount_eq_ok.mp hamount
      exact ⟨hmem (by simp) heq, hnonneg⟩
  · obtain ⟨amount, hamount, rfl⟩ := except_map_eq_ok.mp hresolved
    refine totalFeeComponentAmount_spec (OnGrid.zero 10) le_rfl (fun c hc a ha => ?_) hamount
    refine hmem (x := c.2) ?_ ha
    simp only [feeComponents, mem_cons, not_mem_nil, or_false] at hc
    rcases hc with rfl | rfl | rfl | rfl | rfl <;> simp

theorem movement_of_ok (h : calculateSettlementCashMovement t = .ok m) :
    ∃ fee, resolveFeeAmount t = .ok fee ∧ settlementMovement t fee = .ok m := by
  unfold calculateSettlementCashMovement at h
  split at h
  · cases h
  · exact except_bind_eq_ok.mp h

theorem proceeds_of_ok {available : ℚ} {reason : RejectionReason} {adjustment description : String}
    (h : calculatePositiveProceedsMovement t available fee reason adjustment description = .ok m) :
    m.signedAmount = workingRound (available - fee) ∧ 0 < m.signedAmount := by
  unfold calculatePositiveProceedsMovement at h
  dsimp only at h
  split_ifs at h with hnonpos
  cases h
  exact ⟨rfl, not_le.mp hnonpos⟩

theorem dividend_of_ok (h : calculateDividendMovement t fee = .ok m) :
    0 ≤ t.withholdingTaxAmount.getD 0 ∧ 0 < m.signedAmount ∧ m.signedAmount =
      workingRound
        (workingRound (t.grossTransactionAmount - t.withholdingTaxAmount.getD 0) - fee) := by
  unfold calculateDividendMovement at h
  dsimp only at h
  split_ifs at h with hneg hexceeds hzero
  obtain ⟨hamount, hpos⟩ := proceeds_of_ok h
  exact ⟨not_lt.mp hneg, hpos, hamount⟩

theorem interest_of_ok (h : calculateInterestMovement t fee = .ok m) :
    ∃ economics, calculateInterestSettlementEconomics t = .ok economics ∧
      workingRound economics.settlementCashAmount = economics.settlementCashAmount ∧
      0 ≤ economics.settlementCashAmount ∧ m.signedAmount =
        if isInterestExpense t then -economics.settlementCashAmount
        else economics.settlementCashAmount := by
  obtain ⟨economics, heconomics, h⟩ := except_bind_eq_ok.mp h
  have hrounded : workingRound economics.settlementCashAmount = economics.settlementCashAmount := by
    obtain ⟨_, _, hresult⟩ := except_bind_eq_ok.mp heconomics
    cases hresult
    dsimp only
    split_ifs <;> exact workingRound_workingRound _
  refine ⟨economics, heconomics, hrounded, ?_⟩
  dsimp only at h
  split_ifs at h with hneg hmismatch hzero hnonpos hexpense
  · cases h
    simp [hzero.1]
  · cases h
    rw [workingRound_neg, hrounded, if_pos hexpense]
    exact ⟨(not_le.mp hnonpos).le, rfl⟩
  · cases h
    rw [if_neg hexpense]
    exact ⟨(not_le.mp hnonpos).le, rfl⟩

theorem redemption_of_ok (h : calculateRedemptionMovement t fee = .ok m) :
    ∃ principal, redemptionPrincipal t = .ok principal ∧ 0 ≤ m.signedAmount ∧ m.signedAmount =
      workingRound (workingRound (workingRound (workingRound
        (principal + t.accruedInterestProceedsLocal.getD 0) - t.embeddedFeeAmountLocal.getD 0) -
          t.embeddedTaxAmountLocal.getD 0) - fee) := by
  obtain ⟨principal, hprincipal, h⟩ := except_bind_eq_ok.mp h
  refine ⟨principal, hprincipal, ?_⟩
  dsimp only at h
  split_ifs at h with hzero
  · cases h
    exact ⟨le_rfl, hzero.symm⟩
  · obtain ⟨hamount, hpos⟩ := proceeds_of_ok h
    exact ⟨hpos.le, hamount⟩

theorem onGrid_amount {x : Option ℚ} (hgrid : ∀ a ∈ amounts t, OnGrid 10 a)
    (hx : x ∈ [t.withholdingTaxAmount, t.otherInterestDeductionsAmount, t.netInterestAmount,
      t.principalProceedsLocal, t.accruedInterestProceedsLocal, t.embeddedFeeAmountLocal,
      t.embeddedTaxAmountLocal]) (ha : x = some a) : OnGrid 10 a := by
  refine hgrid a (mem_cons_of_mem _ (reduceOption_mem_iff.mpr ?_))
  rw [← ha]
  exact mem_append_right [t.tradeFee, t.brokerage, t.stampDuty, t.exchangeFee, t.gst,
    t.otherFees] hx

/-- Settlement adds and subtracts only: its result has the decimals of its inputs. -/
theorem onGrid_signedAmount (hgrid : ∀ a ∈ amounts t, OnGrid 10 a)
    (h : calculateSettlementCashMovement t = .ok m) : OnGrid 10 m.signedAmount := by
  obtain ⟨fee, hresolve, hmovement⟩ := movement_of_ok h
  have hfee := (resolveFeeAmount_spec hgrid hresolve).1
  have hgross : OnGrid 10 t.grossTransactionAmount := hgrid _ mem_cons_self
  have hoptional {x : Option ℚ} (hx : x ∈ [t.withholdingTaxAmount, t.otherInterestDeductionsAmount,
      t.netInterestAmount, t.principalProceedsLocal, t.accruedInterestProceedsLocal,
      t.embeddedFeeAmountLocal, t.embeddedTaxAmountLocal]) : OnGrid 10 (x.getD 0) :=
    onGrid_getD fun a ha => onGrid_amount hgrid hx ha
  unfold settlementMovement at hmovement
  split at hmovement
  · cases hmovement
    exact onGrid_workingRound (onGrid_workingRound (hgross.add hfee)).neg
  · rw [(proceeds_of_ok hmovement).1]
    exact onGrid_workingRound (hgross.sub hfee)
  · obtain ⟨-, -, hamount⟩ := dividend_of_ok hmovement
    rw [hamount]
    exact onGrid_workingRound ((onGrid_workingRound (hgross.sub (hoptional (by simp)))).sub hfee)
  · obtain ⟨economics, heconomics, -, -, hamount⟩ := interest_of_ok hmovement
    obtain ⟨fee', hresolve', hresult⟩ := except_bind_eq_ok.mp heconomics
    have hfee' := (resolveFeeAmount_spec hgrid hresolve').1
    cases hresult
    have hexpected := onGrid_workingRound ((onGrid_workingRound (hgross.sub
      (hoptional (x := t.withholdingTaxAmount) (by simp)))).sub
        (hoptional (x := t.otherInterestDeductionsAmount) (by simp)))
    have hnet : OnGrid 10 (t.netInterestAmount.getD (workingRound (workingRound
        (t.grossTransactionAmount - t.withholdingTaxAmount.getD 0) -
          t.otherInterestDeductionsAmount.getD 0))) := by
      cases hnet : t.netInterestAmount with
      | none => exact hexpected
      | some a => exact onGrid_amount hgrid (by simp) hnet
    rw [hamount]
    split_ifs
    · exact (onGrid_workingRound (hnet.add hfee')).neg
    · exact onGrid_workingRound (hnet.sub hfee')
  · obtain ⟨principal, hprincipal, -, hamount⟩ := redemption_of_ok hmovement
    have hgridPrincipal : OnGrid 10 principal := by
      unfold redemptionPrincipal at hprincipal
      split at hprincipal
      · next heq =>
        cases hprincipal
        exact onGrid_amount hgrid (by simp) heq
      · dsimp only at hprincipal
        split_ifs at hprincipal
        cases hprincipal
        exact onGrid_quantize 10 _
    rw [hamount]
    exact onGrid_workingRound ((onGrid_workingRound ((onGrid_workingRound ((onGrid_workingRound
      (hgridPrincipal.add (hoptional (by simp)))).sub (hoptional (by simp)))).sub
        (hoptional (by simp)))).sub hfee)

end Amount

/-! ## The generated leg -/

section Leg

variable {t leg : BookedTransaction}

theorem buildGeneratedSettlementCashLeg_eq_ok (h : buildGeneratedSettlementCashLeg t = .ok leg) :
    ∃ m rate instrument netCost, calculateSettlementCashMovement t = .ok m ∧
      Storable (quantize 10 m.signedAmount) ∧
      leg = settlementCashLeg t rate instrument m (quantize 10 m.signedAmount) netCost := by
  obtain ⟨generates, -, h⟩ := except_bind_eq_ok.mp h
  split at h
  · cases h
  obtain ⟨rate, -, h⟩ := except_bind_eq_ok.mp h
  obtain ⟨instrument, -, h⟩ := except_bind_eq_ok.mp h
  obtain ⟨m, hm, h⟩ := except_bind_eq_ok.mp h
  obtain ⟨netCostLocal, hlocal, h⟩ := except_bind_eq_ok.mp h
  obtain ⟨netCost, -, h⟩ := except_bind_eq_ok.mp h
  obtain ⟨rfl, hstorable⟩ := normalize_eq_ok.mp (ofDecimal_eq_ok.mp hlocal)
  exact ⟨m, rate, instrument, netCost, hm, hstorable, (Except.ok.inj h).symm⟩

variable {m : SettlementCashMovement}

theorem legDirection_of_movement (h : leg.movementDirection = some m.movementDirection) :
    legDirection leg = if 0 < m.signedAmount then "INFLOW" else "OUTFLOW" := by
  rw [legDirection, h, SettlementCashMovement.movementDirection]
  split_ifs <;> decide +kernel

theorem resolveFeeAmount_of_unbooked (h : t.tradeFee = some 0)
    (hcomponents : ∀ component ∈ feeComponents t, component.2 = none) :
    resolveFeeAmount t = .ok 0 := by
  have htrade : bookedTradeFee t = .ok (some 0) := by
    simp [bookedTradeFee, h, ensureNonNegativeFeeAmount, Functor.map, Except.map]
  simp only [resolveFeeAmount, resolveTransactionTradeFee, htrade, bind, Except.bind,
    if_pos hcomponents, Option.getD_some]

theorem workingRound_of_storable (h : Storable x) : workingRound x = x := by
  obtain ⟨hgrid, hbound⟩ := storable_iff.mp h
  exact workingRound_of_onGrid hgrid (hbound.trans (by norm_num))

theorem storable_abs (h : Storable x) : Storable |x| := by
  rcases abs_choice x with hx | hx <;> rw [hx]
  · exact h
  · exact h.neg

/-- The cashflow and the position of a generated leg show the settlement amount. -/
theorem showsCash_of_generated {rate netCost : Option ℚ} {instrument : String}
    (hstorable : Storable m.signedAmount) (rule : CashflowRule) :
    ShowsCash rule (settlementCashLeg t rate instrument m m.signedAmount netCost) m.signedAmount
      t.currency := by
  set leg := settlementCashLeg t rate instrument m m.signedAmount netCost with hleg
  have hgross : leg.grossTransactionAmount = |m.signedAmount| := rfl
  have habs := storable_abs hstorable
  have hround : workingRound |m.signedAmount| = |m.signedAmount| := workingRound_of_storable habs
  have hfee : resolveFeeAmount leg = .ok 0 :=
    resolveFeeAmount_of_unbooked rfl (by simp [hleg, feeComponents, settlementCashLeg])
  have htype : processingType leg = .adjustment := by
    unfold processingType effectiveProcessingType
    have hcode : normalizeTransactionControlCode (positionTerms leg).componentType = "" := by
      have hnone : (positionTerms leg).componentType = none := rfl
      rw [hnone]
      decide +kernel
    rw [hcode]
    rfl
  have hdirection : legDirection leg = if 0 < m.signedAmount then "INFLOW" else "OUTFLOW" :=
    legDirection_of_movement rfl
  have hquantize : quantize 10 |workingRound (leg.grossTransactionAmount - 0)| =
      |m.signedAmount| := by
    rw [hgross, sub_zero, hround, abs_abs, quantize_of_onGrid (storable_iff.mp habs).1]
  have hdelta := cashQuantityDelta_adjustment htype (hgross ▸ abs_nonneg _) fun _ => rfl
  rw [hgross, hround, hdirection] at hdelta
  have hsynthetic : leg.hasSyntheticFlow ≠ some true := by simp [hleg, settlementCashLeg]
  constructor
  · intro epoch context
    refine (calculateTransactionCashflow_adjustment hsynthetic htype).mpr
      ⟨0, hfee, hstorable, rfl, ?_⟩
    rw [hquantize, hdirection]
    by_cases hpos : 0 < m.signedAmount
    · simp [hpos, abs_of_pos hpos]
    · simp [hpos, abs_of_nonpos (not_lt.mp hpos)]
  · rw [hdelta]
    by_cases hpos : 0 < m.signedAmount
    · simp [hpos, abs_of_pos hpos]
    · simp [hpos, abs_of_nonpos (not_lt.mp hpos)]

end Leg

/-! ## The product and the interest inside it -/

section Product

variable {t leg : BookedTransaction} {m : SettlementCashMovement} {rule : CashflowRule}
  {epoch : Option ℤ} {context : CalculationContext}

def linkedProduct (t leg : BookedTransaction) : BookedTransaction :=
  { t with
    externalCashTransactionId := some leg.transactionId
    economicEventId := leg.economicEventId
    linkedTransactionGroupId := leg.linkedTransactionGroupId }

/-- The cashflow of the interest component of the linked product, zero if it has none. -/
def accruedInterestCashflow (t leg : BookedTransaction) (rule : CashflowRule) (epoch : Option ℤ) :
    Except SettlementError ℚ := do
  match ← buildRedemptionAccruedInterestComponent (linkedProduct t leg) false with
  | none => .ok 0
  | some component =>
    CalculatedCashflow.amount <$> calculateTransactionCashflow component rule epoch .currentBooking

def embeddedInterest (t : BookedTransaction) : ℚ :=
  if t.transactionType.isRedemption then t.accruedInterestProceedsLocal.getD 0 else 0

def ruleClassification : TransactionType → CashflowClassification
  | .buy => .investmentOutflow
  | .dividend | .interest => .income
  | _ => .investmentInflow

theorem signedMagnitude_of_nonneg (hx : 0 ≤ x) (hround : workingRound x = x)
    (positive : Bool) : signedMagnitude positive x = if positive then x else -x := by
  rw [← hround, signedMagnitude_workingRound, hround, abs_of_nonneg hx]

variable {type : TransactionType}

theorem ordinary_cases (hordinary : isOrdinarySettlement type)
    (hredemption : type.isRedemption = false) :
    type = .buy ∨ type = .sell ∨ type = .dividend ∨ type = .interest := by
  cases type <;> simp_all [isOrdinarySettlement, TransactionType.isRedemption]

theorem baseCashflowAmount_ordinary {fee : ℚ}
    (hordinary : isOrdinarySettlement type) (hfee : resolveFeeAmount t = .ok fee) :
    baseCashflowAmount t type = .ok (workingRound (if type = .buy then
      t.grossTransactionAmount + fee else t.grossTransactionAmount - fee)) := by
  have hfx : ¬ (type = .fxCashSettlementBuy ∨ type = .fxCashSettlementSell) := by
    rintro (rfl | rfl) <;> cases hordinary
  have htype : type ≠ .fee := by rintro rfl; cases hordinary
  simp only [baseCashflowAmount, hfee, bind, Except.bind, hfx, false_and, if_false, htype, or_false]
  split_ifs <;> rfl

theorem historicalSignedAmount_of_base
    (hbase : baseCashflowAmount t type = .ok (workingRound x)) (hinterest : type ≠ .interest)
    (hadjustment : type ≠ .adjustment) (hrule : rule.classification ≠ .transfer) :
    historicalSignedAmount t rule type = .ok (if rule.classification.isPositive
      then |workingRound x| else -|workingRound x|) := by
  simp only [historicalSignedAmount, hbase, bind, Except.bind, signedCashflowAmount, hinterest,
    hadjustment, hrule, if_false, signedMagnitude_workingRound]

theorem historicalSignedAmount_eq (hgross : 0 ≤ t.grossTransactionAmount)
    (hlarge : t.grossTransactionAmount < 10 ^ 54) (hgrid : ∀ a ∈ amounts t, OnGrid 10 a)
    (hordinary : isOrdinarySettlement t.transactionType)
    (hredemption : t.transactionType.isRedemption = false)
    (hrule : rule.classification = ruleClassification t.transactionType)
    (hwithholding : t.transactionType = .dividend → t.withholdingTaxAmount.getD 0 = 0)
    (h : calculateSettlementCashMovement t = .ok m) :
    historicalSignedAmount t rule t.transactionType = .ok m.signedAmount := by
  obtain ⟨fee, hresolve, hmovement⟩ := movement_of_ok h
  have hfee := (resolveFeeAmount_spec hgrid hresolve).2
  have hbase := baseCashflowAmount_ordinary hordinary hresolve
  unfold settlementMovement at hmovement
  rcases ordinary_cases hordinary hredemption with htype | htype | htype | htype <;>
    simp only [htype, ruleClassification] at hmovement hrule hbase hwithholding ⊢
  · have hround := workingRound_nonneg (add_nonneg hgross hfee)
    cases hmovement
    rw [historicalSignedAmount_of_base hbase (by simp) (by simp) (by simp [hrule]), hrule]
    simp [CashflowClassification.isPositive, abs_of_nonneg hround, workingRound_neg]
  · obtain ⟨hamount, hpos⟩ := proceeds_of_ok hmovement
    rw [historicalSignedAmount_of_base hbase (by simp) (by simp) (by simp [hrule]), hrule]
    rw [hamount] at hpos
    simp [CashflowClassification.isPositive, abs_of_pos hpos, hamount]
  · obtain ⟨-, hpos, hamount⟩ := dividend_of_ok hmovement
    have hexact : workingRound t.grossTransactionAmount = t.grossTransactionAmount :=
      workingRound_of_onGrid (hgrid _ mem_cons_self) (by rwa [abs_of_nonneg hgross])
    rw [hwithholding trivial, sub_zero, hexact] at hamount
    rw [historicalSignedAmount_of_base hbase (by simp) (by simp) (by simp [hrule]), hrule]
    rw [hamount] at hpos
    simp [CashflowClassification.isPositive, abs_of_pos hpos, hamount]
  · obtain ⟨economics, heconomics, hround, hnonneg, hamount⟩ := interest_of_ok hmovement
    simp only [historicalSignedAmount, if_true, heconomics, bind, Except.bind,
      signedMagnitude_of_nonneg hnonneg hround, hamount]
    cases isInterestExpense t <;> rfl

theorem historicalRebuildCashflowAmount_eq (hgross : 0 ≤ t.grossTransactionAmount)
    (hlarge : t.grossTransactionAmount < 10 ^ 54) (hgrid : ∀ a ∈ amounts t, OnGrid 10 a)
    (hordinary : isOrdinarySettlement t.transactionType)
    (hredemption : t.transactionType.isRedemption = false)
    (hrule : rule.classification = ruleClassification t.transactionType)
    (h : calculateSettlementCashMovement t = .ok m) :
    historicalRebuildCashflowAmount t rule t.transactionType = .ok m.signedAmount := by
  rw [historicalRebuildCashflowAmount, if_neg (by simp [hredemption])]
  split_ifs with htaxed
  · simp only [h]
  · refine historicalSignedAmount_eq hgross hlarge hgrid hordinary hredemption hrule
      (fun htype => ?_) h
    -- a negative tax would not have settled
    obtain ⟨fee, -, hmovement⟩ := movement_of_ok h
    rw [settlementMovement, htype] at hmovement
    have hnonneg := (dividend_of_ok hmovement).1
    exact le_antisymm (not_lt.mp fun hpos => htaxed ⟨htype, hpos⟩) hnonneg

theorem redemption_nonneg (hredemption : t.transactionType.isRedemption)
    (h : calculateSettlementCashMovement t = .ok m) : 0 ≤ m.signedAmount := by
  obtain ⟨fee, -, hmovement⟩ := movement_of_ok h
  have hpolicy : settlementMovement t fee = calculateRedemptionMovement t fee := by
    unfold settlementMovement
    cases htype : t.transactionType <;>
      first | rfl | simp [htype, TransactionType.isRedemption] at hredemption
  rw [hpolicy] at hmovement
  obtain ⟨-, -, hnonneg, -⟩ := redemption_of_ok hmovement
  exact hnonneg

theorem storable_sub_embeddedInterest (hstorable : Storable m.signedAmount)
    (haccrued : t.transactionType.isRedemption → 0 ≤ t.accruedInterestProceedsLocal.getD 0 ∧
      Storable (t.accruedInterestProceedsLocal.getD 0))
    (h : calculateSettlementCashMovement t = .ok m) :
    Storable (m.signedAmount - embeddedInterest t) := by
  unfold embeddedInterest
  split_ifs with hredemption
  · obtain ⟨hnonneg, haccrued⟩ := haccrued hredemption
    exact hstorable.sub haccrued (redemption_nonneg hredemption h) hnonneg
  · rwa [sub_zero]

/-- The amount of the product's cashflow: its settlement without the interest that is reported as a
component. -/
theorem settledCashflowAmount_eq (hgross : 0 ≤ t.grossTransactionAmount)
    (hlarge : t.grossTransactionAmount < 10 ^ 54) (hgrid : ∀ a ∈ amounts t, OnGrid 10 a)
    (hordinary : isOrdinarySettlement t.transactionType)
    (hrule : context = .historicalRebuild →
      rule.classification = ruleClassification t.transactionType)
    (hstorable : Storable (m.signedAmount - embeddedInterest t))
    (h : calculateSettlementCashMovement t = .ok m) :
    settledCashflowAmount t rule t.transactionType context =
      .ok (m.signedAmount - embeddedInterest t) := by
  unfold settledCashflowAmount
  by_cases hredemption : t.transactionType.isRedemption
  · rw [embeddedInterest, if_pos hredemption] at hstorable
    simp only [hredemption, if_true, redemptionCashflowAmount, h, bind, Except.bind,
      embeddedInterest, workingRound_of_storable hstorable]
  · rw [if_neg hredemption, if_pos hordinary, embeddedInterest, if_neg hredemption, sub_zero]
    split_ifs with hcontext
    · exact historicalRebuildCashflowAmount_eq hgross hlarge hgrid hordinary
        (Bool.not_eq_true _ ▸ hredemption) (hrule hcontext) h
    · rw [h]
      rfl

variable (rule epoch context) in
theorem exists_productCashflow (hsynthetic : t.hasSyntheticFlow ≠ some true)
    (htype : processingType t = t.transactionType) (hgross : 0 ≤ t.grossTransactionAmount)
    (hlarge : t.grossTransactionAmount < 10 ^ 54) (hgrid : ∀ a ∈ amounts t, OnGrid 10 a)
    (hordinary : isOrdinarySettlement t.transactionType)
    (hrule : context = .historicalRebuild →
      rule.classification = ruleClassification t.transactionType)
    (hstorable : Storable (m.signedAmount - embeddedInterest t))
    (h : calculateSettlementCashMovement t = .ok m) :
    ∃ flow, calculateTransactionCashflow t rule epoch context = .ok flow ∧
      flow.amount = m.signedAmount - embeddedInterest t := by
  obtain ⟨fee, hfee, -⟩ := movement_of_ok h
  have hresolve : resolveCashflowEconomics t rule (processingType t) context =
      .ok ⟨m.signedAmount - embeddedInterest t, t.currency, .net⟩ := by
    rw [resolveCashflowEconomics, if_neg hsynthetic, htype,
      settledCashflowAmount_eq hgross hlarge hgrid hordinary hrule hstorable h]
    rfl
  obtain ⟨flow, hflow, hamount, -⟩ := exists_cashflow_iff.mpr ⟨_, hresolve, ⟨fee, hfee⟩,
    quantize_of_onGrid (storable_iff.mp hstorable).1, hstorable, rfl⟩
  exact ⟨flow, hflow, hamount⟩

variable {link : Option String}

theorem movement_accruedInterestComponent (hstorable : Storable a) (hpos : 0 < a) :
    calculateSettlementCashMovement (accruedInterestComponent t a link) =
      .ok ⟨a, 0, "INTEREST_SETTLEMENT"⟩ := by
  set component := accruedInterestComponent t a link with hcomponent
  have hround := workingRound_of_storable hstorable
  have hfee : resolveFeeAmount component = .ok 0 :=
    resolveFeeAmount_of_unbooked rfl (by simp [hcomponent, feeComponents, accruedInterestComponent])
  have hincome : isInterestExpense component = false := by
    have hdirection : component.interestDirection = some "INCOME" := rfl
    rw [isInterestExpense, hdirection]
    decide +kernel
  have heconomics : calculateInterestSettlementEconomics component = .ok ⟨a, a, 0, a⟩ := by
    have hgross : component.grossTransactionAmount = a := rfl
    have hwithholding : component.withholdingTaxAmount = some 0 := rfl
    have hdeductions : component.otherInterestDeductionsAmount = some 0 := rfl
    have hnet : component.netInterestAmount = some a := rfl
    simp only [calculateInterestSettlementEconomics, hfee, hincome, bind, Except.bind, hgross,
      hwithholding, hdeductions, hnet, Option.getD_some, sub_zero, hround, Bool.false_eq_true,
      if_false]
  have hmovement : calculateInterestMovement component 0 = .ok ⟨a, 0, "INTEREST_SETTLEMENT"⟩ := by
    have hnet : component.netInterestAmount = some a := rfl
    simp [calculateInterestMovement, heconomics, bind, Except.bind, hnet, hincome, hpos.not_gt,
      hpos.not_ge, hpos.ne']
  have htype : component.transactionType = .interest := rfl
  simp only [calculateSettlementCashMovement, htype, isOrdinarySettlement, not_true_eq_false,
    if_false, hfee, bind, Except.bind, settlementMovement, hmovement]

theorem amounts_accruedInterestComponent (hgrid : OnGrid 10 a) :
    ∀ x ∈ amounts (accruedInterestComponent t a link), OnGrid 10 x := by
  simp [amounts, accruedInterestComponent, List.reduceOption, hgrid, OnGrid.zero]

theorem processingType_accruedInterestComponent :
    processingType (accruedInterestComponent t a link) = .interest := by
  have hcode : normalizeTransactionControlCode
      (positionTerms (accruedInterestComponent t a link)).componentType =
        "REDEMPTION_ACCRUED_INTEREST" := by
    have hcomponent : (positionTerms (accruedInterestComponent t a link)).componentType =
      some "REDEMPTION_ACCRUED_INTEREST" := rfl
    rw [hcomponent]
    decide +kernel
  rw [processingType, effectiveProcessingType, hcode]
  rfl

theorem buildComponent_linkedProduct (hredemption : t.transactionType.isRedemption)
    (hpos : 0 < t.accruedInterestProceedsLocal.getD 0) (hlinked : strip leg.transactionId ≠ "")
    (h : calculateSettlementCashMovement t = .ok m) :
    buildRedemptionAccruedInterestComponent (linkedProduct t leg) false =
      .ok (some (accruedInterestComponent (linkedProduct t leg)
        (t.accruedInterestProceedsLocal.getD 0) (some (strip leg.transactionId)))) := by
  have htype : (linkedProduct t leg).transactionType = t.transactionType := rfl
  have haccrued : (linkedProduct t leg).accruedInterestProceedsLocal =
    t.accruedInterestProceedsLocal := rfl
  have hexternal : (linkedProduct t leg).externalCashTransactionId = some leg.transactionId := rfl
  have hmovement : calculateSettlementCashMovement (linkedProduct t leg) = .ok m := h
  simp only [buildRedemptionAccruedInterestComponent, htype, hredemption, haccrued, hpos.not_gt,
    hpos.ne', hmovement, hexternal, Option.getD_some, hlinked, bind, Except.bind, not_true_eq_false,
    false_and, and_false, if_false]

theorem accruedInterestCashflow_eq
    (haccrued : t.transactionType.isRedemption → 0 ≤ t.accruedInterestProceedsLocal.getD 0 ∧
      Storable (t.accruedInterestProceedsLocal.getD 0))
    (hlinked : strip leg.transactionId ≠ "") (h : calculateSettlementCashMovement t = .ok m) :
    accruedInterestCashflow t leg rule epoch = .ok (embeddedInterest t) := by
  unfold accruedInterestCashflow embeddedInterest
  have htype : (linkedProduct t leg).transactionType = t.transactionType := rfl
  have haccruedEq : (linkedProduct t leg).accruedInterestProceedsLocal =
    t.accruedInterestProceedsLocal := rfl
  by_cases hredemption : t.transactionType.isRedemption
  · obtain ⟨hnonneg, hstorable⟩ := haccrued hredemption
    rw [if_pos hredemption]
    rcases hnonneg.eq_or_lt with hzero | hpos
    · simp [buildRedemptionAccruedInterestComponent, htype, hredemption, haccruedEq, ← hzero, bind,
        Except.bind]
    · rw [buildComponent_linkedProduct hredemption hpos hlinked h]
      set a := t.accruedInterestProceedsLocal.getD 0
      set component := accruedInterestComponent (linkedProduct t leg) a
        (some (strip leg.transactionId)) with hcomponent
      obtain ⟨hgrid, hbound⟩ := storable_iff.mp hstorable
      have hembedded : embeddedInterest component = 0 := rfl
      have hstored : Storable (a - embeddedInterest component) := by
        rwa [hembedded, sub_zero]
      have hlarge : a < 10 ^ 54 := ((le_abs_self a).trans_lt hbound).trans (by norm_num)
      obtain ⟨flow, hflow, hamount⟩ := exists_productCashflow rule epoch .currentBooking
        (t := component) (m := ⟨a, 0, _⟩) (by simp [hcomponent, accruedInterestComponent])
        processingType_accruedInterestComponent hnonneg hlarge
        (amounts_accruedInterestComponent hgrid) rfl (fun hcontext => by cases hcontext) hstored
        (movement_accruedInterestComponent hstorable hpos)
      simp only [bind, Except.bind, hflow, Functor.map, Except.map, hamount, hembedded, sub_zero]
  · rw [if_neg hredemption]
    simp [buildRedemptionAccruedInterestComponent, htype, hredemption, bind, Except.bind]

end Product

/-- **Every view shows the same cash.** For a product that settles through a generated leg: its own
cashflow with the cashflow of the interest inside it, the cashflow and the cost of the leg, and the
quantity the leg moves are the settlement amount, and a rebuild of history reports what current
booking reports. -/
theorem settlement_views_agree {product leg : BookedTransaction}
    (hordinary : isOrdinarySettlement product.transactionType)
    (hgross : 0 ≤ product.grossTransactionAmount)
    (hgrid : ∀ a ∈ amounts product, OnGrid 10 a)
    (hsynthetic : product.hasSyntheticFlow ≠ some true)
    (htype : processingType product = product.transactionType)
    (hlarge : product.grossTransactionAmount < 10 ^ 54)
    (haccrued : product.transactionType.isRedemption →
      0 ≤ product.accruedInterestProceedsLocal.getD 0 ∧
        product.accruedInterestProceedsLocal.getD 0 < 10 ^ 8)
    (hleg : buildGeneratedSettlementCashLeg product = .ok leg) :
    ∃ movement, calculateSettlementCashMovement product = .ok movement ∧
      (∀ rule epoch interestRule, ∃ flow interest,
        calculateTransactionCashflow product rule epoch .currentBooking = .ok flow ∧
        accruedInterestCashflow product leg interestRule epoch = .ok interest ∧
        flow.amount + interest = movement.signedAmount) ∧
      (∀ rule, ShowsCash rule leg movement.signedAmount product.currency) ∧
      leg.netCostLocal = some movement.signedAmount ∧
      ∀ rule epoch, rule.classification = ruleClassification product.transactionType →
        ∃ current historical,
          calculateTransactionCashflow product rule epoch .currentBooking = .ok current ∧
          calculateTransactionCashflow product rule epoch .historicalRebuild = .ok historical ∧
          historical.amount = current.amount := by
  obtain ⟨m, rate, instrument, netCost, hm, hquantized, rfl⟩ :=
    buildGeneratedSettlementCashLeg_eq_ok hleg
  rw [quantize_of_onGrid (onGrid_signedAmount hgrid hm)] at hquantized ⊢
  have hstored : product.transactionType.isRedemption →
      0 ≤ product.accruedInterestProceedsLocal.getD 0 ∧
        Storable (product.accruedInterestProceedsLocal.getD 0) := fun hredemption => by
    obtain ⟨hnonneg, hbound⟩ := haccrued hredemption
    refine ⟨hnonneg, storable_iff.mpr ⟨onGrid_getD fun a ha => ?_, ?_⟩⟩
    · exact onGrid_amount hgrid (by simp) ha
    · rwa [abs_of_nonneg hnonneg]
  have hflow := storable_sub_embeddedInterest hquantized hstored hm
  refine ⟨m, hm, fun rule epoch interestRule => ?_, showsCash_of_generated hquantized, rfl,
    fun rule epoch hrule => ?_⟩
  · obtain ⟨flow, hcurrent, hamount⟩ := exists_productCashflow rule epoch .currentBooking
      hsynthetic htype hgross hlarge hgrid hordinary (fun hcontext => by cases hcontext) hflow hm
    refine ⟨flow, _, hcurrent, accruedInterestCashflow_eq hstored ?_ hm, ?_⟩
    · intro hblank
      have hdash := strip_eq_empty.mp hblank '-' (by simp [settlementCashLeg])
      exact absurd hdash (by decide)
    · rw [hamount, sub_add_cancel]
  · obtain ⟨current, hcurrent, hamount⟩ := exists_productCashflow rule epoch .currentBooking
      hsynthetic htype hgross hlarge hgrid hordinary (fun hcontext => by cases hcontext) hflow hm
    obtain ⟨historical, hhistorical, hamount'⟩ :=
      exists_productCashflow rule epoch .historicalRebuild
      hsynthetic htype hgross hlarge hgrid hordinary (fun _ => hrule) hflow hm
    exact ⟨current, historical, hcurrent, hhistorical, hamount'.trans hamount.symm⟩

def settledProduct (type : TransactionType) (gross : ℚ) : BookedTransaction where
  transactionId := "T1"
  portfolioId := "P1"
  instrumentId := "I1"
  securityId := "S1"
  transactionDate := 0
  transactionType := type
  quantity := 10
  price := 100
  grossTransactionAmount := gross
  tradeCurrency := "USD"
  currency := "USD"
  cashEntryMode := some "AUTO_GENERATE"
  settlementCashAccountId := some "ACC1"

def redemptionWithInterest (accrued fees : ℚ) : BookedTransaction :=
  { settledProduct .maturityRedemption 1000 with
    principalProceedsLocal := some 1000
    accruedInterestProceedsLocal := some accrued
    embeddedFeeAmountLocal := some fees }

theorem settlement_views_agree_redemption :
    ∃ leg, buildGeneratedSettlementCashLeg (redemptionWithInterest 5 1) = .ok leg ∧
      (∀ rule, ShowsCash rule leg 1004 "USD") ∧ leg.netCostLocal = some 1004 := by
  obtain ⟨leg, hleg⟩ : ∃ leg,
      buildGeneratedSettlementCashLeg (redemptionWithInterest 5 1) = .ok leg := by
    have hok : (buildGeneratedSettlementCashLeg (redemptionWithInterest 5 1)).isOk = true := by
      decide +kernel
    cases hbuild : buildGeneratedSettlementCashLeg (redemptionWithInterest 5 1) with
    | ok leg => exact ⟨leg, rfl⟩
    | error e => rw [hbuild] at hok; cases hok
  obtain ⟨movement, hmovement, -, hshows, hcost, -⟩ :=
    settlement_views_agree rfl (by decide +kernel)
    (by decide +kernel) (by decide) (by decide +kernel) (by decide +kernel)
    (fun _ => by decide +kernel)
    hleg
  have hsettles : calculateSettlementCashMovement (redemptionWithInterest 5 1) =
      .ok ⟨1004, 0, "REDEMPTION_SETTLEMENT"⟩ := by decide +kernel
  obtain rfl : movement = ⟨1004, 0, "REDEMPTION_SETTLEMENT"⟩ :=
    Except.ok.inj (hmovement.symm.trans hsettles)
  exact ⟨leg, hleg, hshows, hcost⟩

def reportedAmount (t : BookedTransaction) (rule : CashflowRule) (context : CalculationContext) :
    Option ℚ :=
  (calculateTransactionCashflow t rule none context).toOption.map CalculatedCashflow.amount

/-- The signed settlement of a product that generates a leg. -/
def generatedAmount (t : BookedTransaction) : Option ℚ :=
  (buildGeneratedSettlementCashLeg t).toOption.bind fun _ =>
    (calculateSettlementCashMovement t).toOption.map SettlementCashMovement.signedAmount

/-- The views part for a synthetic flow, for a component of an exchange, for a dividend of more than
64 digits, and for an accrued interest that is negative or does not fit the ledger. -/
theorem settlement_views_part :
    (generatedAmount { settledProduct .buy 100 with hasSyntheticFlow := some true } = some (-100) ∧
      reportedAmount { settledProduct .buy 100 with hasSyntheticFlow := some true }
        ⟨.investmentOutflow, "BOD", true, false⟩ .currentBooking = none) ∧
    (generatedAmount { settledProduct .buy 100 with
        componentType := some "FX_CONTRACT_OPEN", tradeFee := some 1 } = some (-101) ∧
      reportedAmount { settledProduct .buy 100 with
        componentType := some "FX_CONTRACT_OPEN", tradeFee := some 1 }
        ⟨.investmentOutflow, "BOD", true, false⟩ .currentBooking = some (-99)) ∧
    (generatedAmount { settledProduct .dividend (10 ^ 54 + 1 / 10 ^ 10) with
        tradeFee := some (10 ^ 54 - 5) } = some 5 ∧
      reportedAmount { settledProduct .dividend (10 ^ 54 + 1 / 10 ^ 10) with
        tradeFee := some (10 ^ 54 - 5) } ⟨.income, "BOD", true, false⟩ .historicalRebuild =
          some (5 + 1 / 10 ^ 10)) ∧
    ∀ product ∈ [redemptionWithInterest (-5) 0, redemptionWithInterest (10 ^ 8) (10 ^ 8)],
      (buildGeneratedSettlementCashLeg product).toOption.map (fun leg =>
        (accruedInterestCashflow product leg ⟨.income, "BOD", true, false⟩ none).toOption) =
          some none := by
  decide +kernel

end LotusCore.Settlement
