import LotusCore.CostBasis.LotCalls

/-!
# The two passes of a redemption

A redemption is calculated twice: before its lots are consumed, to resolve its quantity, and after,
with the resolved quantity written over the booked one and with the consumed cost. The second pass
checks the quantity again, and this check can fail after the lots are gone.

* `RedemptionTerms.PassesAgree`: the resolved quantity passes the checks the booked one passed.
* `resolveRedeemedQuantity_rewritten`: the second pass resolves the quantity of the first exactly
  under this condition.
* **`redemption_passes_agree`**: on every reachable book, the second pass completes and agrees with
  the preview exactly under this condition.
-/

namespace LotusCore

open Exec Decimal Ledger

/-! ## The resolved quantity, checked again -/

namespace RedemptionTerms

/-- The terms of the second pass: the resolved quantity, and the cost of the consumed lots. -/
def rewritten (terms : RedemptionTerms) (quantity costLocal costBase : ℚ) : RedemptionTerms :=
  { terms with
    redeemedQuantity := some quantity
    allocatedCostBasisLocal := costLocal
    allocatedCostBasisBase := costBase }

/-- A full redemption by factors redeems the whole position up to the tolerance, and the rounded
quantity of a partial one leaves a part of the position. -/
def PassesAgree (terms : RedemptionTerms) : Prop :=
  if terms.transactionType.isFullRedemption then
    ∀ oldFactor ∈ terms.oldFactor, ∀ newFactor ∈ terms.newFactor,
      |terms.positionQuantity - factorShare terms.positionQuantity oldFactor newFactor| ≤
        reconciliationTolerance
  else ∀ quantity ∈ terms.redeemedQuantity, quantize 10 quantity < terms.positionQuantity

end RedemptionTerms

section Resolve

variable {terms : RedemptionTerms} {q x : ℚ}

theorem requestedRedemptionQuantity_rewritten {costLocal costBase y : ℚ} :
    requestedRedemptionQuantity (terms.rewritten q costLocal costBase) = .ok y ↔
      y = q ∧ ∃ o, factorRedeemedQuantity terms = .ok o ∧
        ∀ share ∈ o, |ambientContext.round (q - share)| ≤ reconciliationTolerance := by
  unfold requestedRedemptionQuantity
  rw [except_bind_eq_ok]
  have hfactor : factorRedeemedQuantity (terms.rewritten q costLocal costBase) =
      factorRedeemedQuantity terms := rfl
  rw [hfactor]
  constructor
  · rintro ⟨o, ho, h⟩
    rcases o with _ | share
    · cases h
      exact ⟨rfl, none, ho, by simp⟩
    · obtain ⟨_, htol, h⟩ := except_bind_eq_ok.mp h
      cases h
      exact ⟨rfl, some share, ho, by simpa using requireWithinTolerance_eq_ok.mp htol⟩
  · rintro ⟨rfl, o, ho, htol⟩
    refine ⟨o, ho, ?_⟩
    rcases o with _ | share
    · rfl
    · exact except_bind_eq_ok.mpr
        ⟨(), requireWithinTolerance_eq_ok.mpr (htol share rfl), rfl⟩

theorem quantize_within_tolerance {share : ℚ} (hshare : Storable share)
    (h : |ambientContext.round (q - share)| ≤ reconciliationTolerance) :
    |ambientContext.round (quantize 10 q - share)| ≤ reconciliationTolerance := by
  -- the booked quantity is less than one and a half quanta off
  have hnear : |q - share| < 15 / 10 ^ 11 := by
    by_contra hfar
    have hmono := ambientContext.round_mono (by norm_num) (not_lt.mp hfar)
    have hconst : ambientContext.round (15 / 10 ^ 11) = 15 / 10 ^ 11 := by decide +kernel
    have habs : ambientContext.round |q - share| = |ambientContext.round (q - share)| := by
      rcases le_total 0 (q - share) with hs | hs
      · rw [abs_of_nonneg hs, abs_of_nonneg (ambientContext.round_nonneg hs)]
      · have hneg := ambientContext.round_nonneg (neg_nonneg.mpr hs)
        rw [ambientContext.round_neg] at hneg
        rw [abs_of_nonpos hs, ambientContext.round_neg, abs_of_nonpos (neg_nonneg.mp hneg)]
    rw [hconst, habs] at hmono
    have htol : reconciliationTolerance = 1 / 10 ^ 10 := rfl
    rw [htol] at h
    linarith
  -- so the rounded quantity is at most one quantum off
  have hgrid : OnGrid 10 (quantize 10 q - share) :=
    (onGrid_quantize 10 q).sub (storable_iff.mp hshare).1
  have hround := abs_quantize_sub_le 10 q
  have hlt : |quantize 10 q - share| < 2 / 10 ^ 10 := by
    have htri := abs_sub_le (quantize 10 q) q share
    norm_num at hround htri hnear ⊢
    linarith
  obtain ⟨n, hn⟩ := hgrid
  have hsmall : |quantize 10 q - share| ≤ 1 / 10 ^ 10 := by
    rw [hn, abs_mul] at hlt ⊢
    have hn2 : |(n : ℚ)| < 2 := by
      norm_num at hlt ⊢
      linarith
    have hn1 : |n| ≤ 1 := by
      have : |n| < 2 := by exact_mod_cast hn2
      omega
    have hn1' : |(n : ℚ)| ≤ 1 := by exact_mod_cast hn1
    norm_num
    linarith
  have hst : Storable (quantize 10 q - share) :=
    storable_iff.mpr ⟨⟨n, hn⟩, hsmall.trans_lt (by norm_num)⟩
  rw [ambientContext_round_of_storable hst]
  exact hsmall

/-- **The second check.** The rewritten quantity is resolved again exactly when the passes agree,
and then to itself. -/
theorem resolveRedeemedQuantity_rewritten {costLocal costBase : ℚ} (hvalid : terms.Valid)
    (hposition : Storable terms.positionQuantity) (h : resolveRedeemedQuantity terms = .ok q) :
    resolveRedeemedQuantity (terms.rewritten q costLocal costBase) = .ok x ↔
      x = q ∧ terms.PassesAgree := by
  obtain ⟨request, hrequest, hle, hst, hcase⟩ := resolveRedeemedQuantity_eq_ok.mp h
  obtain ⟨o, ho, hrequest⟩ := except_bind_eq_ok.mp hrequest
  rw [resolveRedeemedQuantity_eq_ok]
  simp only [requestedRedemptionQuantity_rewritten, ho, Except.ok.injEq, exists_eq_left',
    and_assoc, exists_eq_left]
  show ((∀ share ∈ o, |ambientContext.round (q - share)| ≤ reconciliationTolerance) ∧
    q ≤ terms.positionQuantity ∧ Storable x ∧ if terms.transactionType.isFullRedemption then
      |ambientContext.round (q - terms.positionQuantity)| ≤ reconciliationTolerance ∧
        x = quantize 10 terms.positionQuantity
      else q < terms.positionQuantity ∧ x = quantize 10 q) ↔ _
  unfold RedemptionTerms.PassesAgree
  by_cases hfull : terms.transactionType.isFullRedemption = true
  · simp only [hfull, if_true] at hcase ⊢
    obtain rfl : q = terms.positionQuantity := by
      rw [hcase.2, quantize_of_onGrid (storable_iff.mp hposition).1]
    -- the position against the share of the factor transition
    have hshare : (∀ share ∈ o, |ambientContext.round (terms.positionQuantity - share)| ≤
        reconciliationTolerance) ↔ ∀ oldFactor ∈ terms.oldFactor, ∀ newFactor ∈ terms.newFactor,
          |terms.positionQuantity - factorShare terms.positionQuantity oldFactor newFactor| ≤
            reconciliationTolerance := by
      rcases factorRedeemedQuantity_eq_ok.mp ho with ⟨hold, -, rfl⟩ |
        ⟨oldFactor, newFactor, hold, hnew, h1, h2, h3, rfl, hfs⟩
      · simp [hold]
      · have hdiff : Storable (terms.positionQuantity -
            factorShare terms.positionQuantity oldFactor newFactor) :=
          hposition.sub hfs hvalid.position_pos.le
            (factorShare_nonneg hvalid.position_pos.le h1.le h3.le)
        simp [hold, hnew, ambientContext_round_of_storable hdiff]
    rw [hshare, sub_self, Context.round_zero, abs_zero,
      quantize_of_onGrid (storable_iff.mp hposition).1]
    constructor
    · rintro ⟨hagree, -, -, -, hx⟩
      exact ⟨hx, hagree⟩
    · rintro ⟨rfl, hagree⟩
      exact ⟨hagree, le_rfl, hposition, by norm_num [reconciliationTolerance], rfl⟩
  · simp only [hfull, Bool.false_eq_true, if_false] at hcase ⊢
    obtain ⟨hlt, rfl⟩ := hcase
    rw [quantize_of_onGrid (onGrid_quantize 10 request)]
    -- the share of a factor transition is on the grid
    have hgrid : ∀ share ∈ o, Storable share := by
      rcases factorRedeemedQuantity_eq_ok.mp ho with ⟨-, -, rfl⟩ | ⟨_, _, -, -, -, -, -, rfl, hfs⟩
      · simp
      · simpa using hfs
    have hrounded : (∀ share ∈ o, |ambientContext.round (quantize 10 request - share)| ≤
        reconciliationTolerance) ∧ ((∀ quantity ∈ terms.redeemedQuantity,
          quantize 10 quantity < terms.positionQuantity) ↔
        quantize 10 request < terms.positionQuantity) := by
      rcases hexplicit : terms.redeemedQuantity with _ | booked <;> rcases o with _ | share
      · simp [hexplicit] at hrequest
      · simp only [hexplicit, Except.ok.injEq] at hrequest
        subst hrequest
        rw [quantize_of_onGrid (storable_iff.mp (hgrid share rfl)).1]
        simp [hlt, reconciliationTolerance]
      · simp only [hexplicit, Except.ok.injEq] at hrequest
        subst hrequest
        simp
      · simp only [hexplicit] at hrequest
        obtain ⟨_, htol, hbooked⟩ := except_bind_eq_ok.mp hrequest
        cases hbooked
        refine ⟨?_, by simp⟩
        rintro _ ⟨⟩
        exact quantize_within_tolerance (hgrid share rfl) (requireWithinTolerance_eq_ok.mp htol)
    rw [hrounded.2]
    constructor
    · rintro ⟨-, -, -, hleft, hx⟩
      exact ⟨hx, hleft⟩
    · rintro ⟨rfl, hleft⟩
      exact ⟨hrounded.1, hleft.le, hst, hleft, rfl⟩

end Resolve

/-! ## Both passes -/

theorem consumeFifoLots_costs {lots : List CostLot} {totals totals' : DisposalTotals}
    {b b' : FifoBook} (hl : Storable totals.costLocal) (hb : Storable totals.costBase)
    (h : consumeFifoLots lots totals b = .ok totals' b') :
    Storable totals'.costLocal ∧ Storable totals'.costBase := by
  induction lots generalizing totals b with
  | nil =>
    obtain ⟨rfl, -⟩ := pure_eq_ok.mp h
    exact ⟨hl, hb⟩
  | cons lot rest ih =>
    unfold consumeFifoLots at h
    split_ifs at h
    · obtain ⟨⟨a, r⟩, b₁, -, h⟩ := bind_eq_ok.mp h
      simp only [bind_liftM_eq_ok] at h
      obtain ⟨cb, hcb, cl, hcl, cq, -, h⟩ := h
      exact ih (storable_of_add hcl) (storable_of_add hcb) h
    · obtain ⟨rfl, -⟩ := pure_eq_ok.mp h
      exact ⟨hl, hb⟩

variable {r : LotDisposalResult}

theorem fifoConsume_costs {b b' : FifoBook} {q : ℚ} (h : fifoConsume q b = .ok r b') :
    Storable r.costLocal ∧ Storable r.costBase ∧ 0 ≤ r.costLocal ∧ 0 ≤ r.costBase := by
  rcases fifoConsume_cases h with ⟨-, ⟨-, rfl⟩ | ⟨reason, rfl⟩⟩ |
    ⟨-, -, totals, _, _, hloop, -, hnew, -⟩
  · exact ⟨storable_zero, storable_zero, le_rfl, le_rfl⟩
  · exact ⟨storable_zero, storable_zero, le_rfl, le_rfl⟩
  · obtain ⟨hl, hb⟩ := consumeFifoLots_costs storable_zero storable_zero hloop
    obtain ⟨rfl, hb0, hl0, -⟩ := LotDisposalResult.new_eq_ok hnew
    exact ⟨hl, hb, hl0, hb0⟩

theorem avcoConsume_costs {b b' : AvcoBook} {q : ℚ} (h : avcoConsume q b = .ok r b') :
    Storable r.costLocal ∧ Storable r.costBase ∧ 0 ≤ r.costLocal ∧ 0 ≤ r.costBase := by
  rcases avcoConsume_cases h with ⟨-, ⟨-, rfl⟩ | ⟨reason, rfl⟩⟩ |
    ⟨-, -, _, _, cost, p, _, _, -, hdispose, -, -, -, -, -, -, hnew⟩
  · exact ⟨storable_zero, storable_zero, le_rfl, le_rfl⟩
  · exact ⟨storable_zero, storable_zero, le_rfl, le_rfl⟩
  · obtain ⟨-, hb, hl⟩ := AverageCostPool.dispose_quantity hdispose
    obtain ⟨rfl, hb0, hl0, -⟩ := LotDisposalResult.new_eq_ok hnew
    exact ⟨hl, hb, hl0, hb0⟩

/-- The costs of a disposal are nonnegative and the ledger holds them. -/
theorem CostBasisBooks.consume_costs {books b : CostBasisBooks} {key : BookKey} {q : ℚ}
    (h : consume key q books = .ok r b) :
    Storable r.costLocal ∧ Storable r.costBase ∧ 0 ≤ r.costLocal ∧ 0 ≤ r.costBase := by
  cases books with
  | fifo f =>
    obtain ⟨_, hbook, -⟩ := onBook_fifo_eq_ok.mp h
    exact fifoConsume_costs hbook
  | avco a ids =>
    obtain ⟨_, hbook, -⟩ := onBook_avco_eq_ok.mp h
    exact avcoConsume_costs hbook

/-- An accepted disposal of something was asked for a positive quantity. -/
theorem CostBasisBooks.consume_pos {books b : CostBasisBooks} {key : BookKey} {q : ℚ}
    (h : consume key q books = .ok r b) (hr : r.errorReason = none)
    (hpos : 0 < r.consumedQuantity) : 0 < q := by
  cases books with
  | fifo f =>
    obtain ⟨_, hbook, -⟩ := onBook_fifo_eq_ok.mp h
    rcases fifoConsume_cases hbook with ⟨-, ⟨-, rfl⟩ | ⟨reason, rfl⟩⟩ | ⟨hq, -⟩
    · exact absurd hpos (lt_irrefl _)
    · cases hr
    · exact hq
  | avco a ids =>
    obtain ⟨_, hbook, -⟩ := onBook_avco_eq_ok.mp h
    rcases avcoConsume_cases hbook with ⟨-, ⟨-, rfl⟩ | ⟨reason, rfl⟩⟩ | ⟨hq, -⟩
    · exact absurd hpos (lt_irrefl _)
    · cases hr
    · exact hq

section Passes

variable {terms : RedemptionTerms} {preview e : RedemptionEconomics} {costLocal costBase : ℚ}

/-- The principal of a completed calculation is nonnegative and the ledger holds it. -/
theorem RedemptionTerms.Pays.principal_storable (hvalid : terms.Valid) (h : terms.Pays e)
    (hq : 0 ≤ e.redeemedQuantity) :
    (Storable e.principalProceedsLocal ∧ 0 ≤ e.principalProceedsLocal) ∧
      Storable e.principalProceedsBase ∧ 0 ≤ e.principalProceedsBase := by
  have hlocal : Storable e.principalProceedsLocal ∧ 0 ≤ e.principalProceedsLocal := by
    have hresolve := h.principal
    unfold resolvePrincipalProceeds at hresolve
    cases hp : terms.principalProceedsLocal with
    | none =>
      rw [hp] at hresolve
      rw [← Except.ok.inj hresolve]
      obtain ⟨hd, hst⟩ := normalize_eq_ok.mp h.derived
      refine ⟨hst, hd ▸ quantize_nonneg (workingRound_nonneg ?_)⟩
      exact mul_nonneg hq hvalid.price_nonneg
    | some x =>
      rw [hp] at hresolve
      obtain ⟨_, -, hnorm⟩ := except_bind_eq_ok.mp hresolve
      obtain ⟨hx, hst⟩ := normalize_eq_ok.mp hnorm
      exact ⟨hst, hx ▸ quantize_nonneg (hvalid.principal_nonneg x hp)⟩
  obtain ⟨hbase, hst⟩ := multiply_eq_ok.mp h.principalBase
  exact ⟨hlocal, hst, hbase ▸ extendedCost_nonneg hlocal.2 hvalid.fx_pos.le⟩

theorem calculateRedemptionEconomics_rewritten
    (hpreview : calculateRedemptionEconomics terms = .ok preview)
    (hpos : 0 < preview.redeemedQuantity) (hl : Storable costLocal) (hb : Storable costBase)
    (hl0 : 0 ≤ costLocal) (hb0 : 0 ≤ costBase)
    (hagain : resolveRedeemedQuantity
      (terms.rewritten preview.redeemedQuantity costLocal costBase) =
      .ok preview.redeemedQuantity) :
    calculateRedemptionEconomics (terms.rewritten preview.redeemedQuantity costLocal costBase) =
      .ok { preview with
        realizedCapitalPnlLocal := preview.principalProceedsLocal - costLocal
        realizedCapitalPnlBase := preview.principalProceedsBase - costBase } := by
  obtain ⟨hvalid, -, hpays, -, -⟩ := calculateRedemptionEconomics_eq_ok.mp hpreview
  obtain ⟨⟨hp, hp0⟩, hpb, hpb0⟩ := hpays.principal_storable hvalid hpos.le
  refine calculateRedemptionEconomics_eq_ok.mpr ⟨?_, hagain, ?_, ?_, ?_⟩
  · exact ⟨hvalid.isRedemption, hvalid.position_pos, hvalid.price_nonneg, hvalid.fx_pos, hl0, hb0,
      hvalid.interest_nonneg, hvalid.fees_nonneg, hvalid.taxes_nonneg, hvalid.principal_nonneg,
      by simpa [RedemptionTerms.rewritten] using hpos⟩
  · exact ⟨hpays.derived, hpays.principal, hpays.interest, hpays.cash, hpays.cash_nonneg,
      hpays.remaining, hpays.principalBase⟩
  · exact subtract_of_nonneg hp hl hp0 hl0
  · exact subtract_of_nonneg hpb hb hpb0 hb0

theorem redemptionTerms_rewritten {t : CostBasisTransaction} {q position : ℚ} (hq : q ≠ 0) :
    redemptionTerms { t with quantity := q } position costLocal costBase =
      (redemptionTerms t position 0 0).rewritten q costLocal costBase := by
  simp only [redemptionTerms, RedemptionTerms.rewritten, hq, false_and, if_false]
  rfl

end Passes

/-- **Both passes of a redemption.** On the books any history of completed calls reaches, after the
lots of the previewed quantity are consumed: the second pass completes, resolves the quantity and
the principal of the preview and realizes the principal less the consumed cost, exactly when the
resolved quantity passes the checks that the booked one passed. -/
theorem redemption_passes_agree {method : CostBasisMethod} {calls : List LotCall}
    {books : CostBasisBooks} (hrun : LotCall.run method calls = .ok books)
    {t : CostBasisTransaction} {preview : RedemptionEconomics}
    (hpreview : calculateRedemptionEconomics
      (redemptionTerms t (books.availableQuantity t.bookKey) 0 0) = .ok preview)
    {r : LotDisposalResult} {b : CostBasisBooks}
    (hconsume : CostBasisBooks.consume t.bookKey preview.redeemedQuantity books = .ok r b)
    (hr : r.errorReason = none) (hpos : 0 < r.consumedQuantity) :
    (∃ e, calculateRedemptionEconomics (redemptionTerms
        { t with quantity := preview.redeemedQuantity } (books.availableQuantity t.bookKey)
        r.costLocal r.costBase) = .ok e ∧
      e.redeemedQuantity = preview.redeemedQuantity ∧
      e.principalProceedsLocal = preview.principalProceedsLocal ∧
      e.principalProceedsBase = preview.principalProceedsBase ∧
      e.realizedCapitalPnlLocal + r.costLocal = e.principalProceedsLocal ∧
      e.realizedCapitalPnlBase + r.costBase = e.principalProceedsBase) ↔
    (redemptionTerms t (books.availableQuantity t.bookKey) 0 0).PassesAgree := by
  have hq := CostBasisBooks.consume_pos hconsume hr hpos
  obtain ⟨hl, hb, hl0, hb0⟩ := CostBasisBooks.consume_costs hconsume
  obtain ⟨hvalid, hresolve, -⟩ := calculateRedemptionEconomics_eq_ok.mp hpreview
  have hagain : ∀ x, resolveRedeemedQuantity ((redemptionTerms t
      (books.availableQuantity t.bookKey) 0 0).rewritten preview.redeemedQuantity r.costLocal
        r.costBase) = .ok x ↔ _ := fun x =>
    resolveRedeemedQuantity_rewritten hvalid (LotCall.available_storable hrun t.bookKey) hresolve
  rw [redemptionTerms_rewritten hq.ne']
  constructor
  · rintro ⟨e, he, -⟩
    exact ((hagain _).mp (calculateRedemptionEconomics_eq_ok.mp he).2.1).2
  · intro hagree
    refine ⟨_, calculateRedemptionEconomics_rewritten hpreview hq hl hb hl0 hb0
      ((hagain _).mpr ⟨rfl, hagree⟩), rfl, rfl, rfl, ?_, ?_⟩
    · exact sub_add_cancel _ _
    · exact sub_add_cancel _ _

def maturedNote (quantity newFactor : ℚ) : CostBasisTransaction where
  transactionId := "R1"
  portfolioId := "P"
  instrumentId := "I"
  securityId := "S"
  transactionType := .maturityRedemption
  transactionDate := 1
  quantity := quantity
  grossTransactionAmount := 1
  tradeCurrency := "USD"
  portfolioBaseCurrency := "USD"
  price := 1
  oldFactor := some 1
  newFactor := some newFactor

def unitLot : CostLot := ⟨"B1", "LOT-B1", 0, 1, 1, 1, 1⟩

def unitDisposal : LotDisposalResult :=
  ⟨1, 1, 1, [⟨"LOT-B1", "B1", 0, 1, 1, 1, 1, 1, 1, by norm_num, by norm_num, by norm_num, le_rfl,
    le_rfl⟩], none⟩

theorem consume_unitLot :
    CostBasisBooks.consume ("P", "I") 1 (.fifo (Function.update (fun _ => {}) ("P", "I")
      ⟨[unitLot], [], 1⟩)) = .ok unitDisposal (.fifo (Function.update (fun _ => {}) ("P", "I")
        ⟨[], [unitLot.shrunk 0], 0⟩)) := by
  have hbook : fifoConsume 1 ⟨[unitLot], [], 1⟩ = .ok unitDisposal ⟨[], [unitLot.shrunk 0], 0⟩ :=
    outcome_eq_ok.mp (by decide +kernel)
  exact CostBasisBooks.consume_update_eq_ok.mpr ⟨_, hbook, rfl⟩

theorem redemption_passes_agree_matured :
    ∃ books preview b e, LotCall.run .fifo [.addBuyLot (costedBuy "B1" 1 1)] = .ok books ∧
      calculateRedemptionEconomics (redemptionTerms (maturedNote 1 0)
        (books.availableQuantity ("P", "I")) 0 0) = .ok preview ∧
      CostBasisBooks.consume ("P", "I") preview.redeemedQuantity books = .ok unitDisposal b ∧
      calculateRedemptionEconomics (redemptionTerms
        { maturedNote 1 0 with quantity := preview.redeemedQuantity }
        (books.availableQuantity ("P", "I")) 1 1) = .ok e ∧
      e.redeemedQuantity = preview.redeemedQuantity := by
  have hrun := LotCall.run_first_buy (costedBuy "B1" 1 1) ⟨[unitLot], [], 1⟩
    (by decide +kernel)
  have hpreview : calculateRedemptionEconomics (redemptionTerms (maturedNote 1 0) 1 0 0) =
      .ok ⟨1, 0, 1, 1, 0, 1, 1, 1, 1⟩ := by decide +kernel
  have hagree : (redemptionTerms (maturedNote 1 0) 1 0 0).PassesAgree := by
    simp only [RedemptionTerms.PassesAgree, redemptionTerms, maturedNote,
      TransactionType.isFullRedemption, if_true, Option.mem_some_iff, forall_eq']
    decide +kernel
  obtain ⟨e, he, hq, -⟩ := (redemption_passes_agree hrun (t := maturedNote 1 0) hpreview
    consume_unitLot rfl (by decide +kernel)).mpr hagree
  exact ⟨_, _, _, e, hrun, hpreview, consume_unitLot, he, hq⟩

/-- A matured position of one unit, booked one quantum short, with a factor transition one quantum
shorter still. Each is within the tolerance of the next, so the preview resolves the whole position;
the position is two quanta off the factor transition, and the second pass refuses it after the lot
is consumed. -/
theorem redemption_refused_after_consumption :
    ∃ books preview b, LotCall.run .fifo [.addBuyLot (costedBuy "B1" 1 1)] = .ok books ∧
      calculateRedemptionEconomics (redemptionTerms (maturedNote (1 - 1 / 10 ^ 10) (2 / 10 ^ 10))
        (books.availableQuantity ("P", "I")) 0 0) = .ok preview ∧
      CostBasisBooks.consume ("P", "I") preview.redeemedQuantity books = .ok unitDisposal b ∧
      calculateRedemptionEconomics (redemptionTerms
        { maturedNote (1 - 1 / 10 ^ 10) (2 / 10 ^ 10) with quantity := preview.redeemedQuantity }
        (books.availableQuantity ("P", "I")) 1 1) =
          .error (.redemptionCalculation .quantityAuthorityMismatch "redeemed_quantity"
            "values differ by more than the governed tolerance 1E-10.") := by
  have hrun := LotCall.run_first_buy (costedBuy "B1" 1 1) ⟨[unitLot], [], 1⟩
    (by decide +kernel)
  have hpreview : calculateRedemptionEconomics (redemptionTerms
      (maturedNote (1 - 1 / 10 ^ 10) (2 / 10 ^ 10)) 1 0 0) =
        .ok ⟨1, 0, 1, 1, 0, 1, 1, 1, 1⟩ := by decide +kernel
  have hsecond : calculateRedemptionEconomics (redemptionTerms
      { maturedNote (1 - 1 / 10 ^ 10) (2 / 10 ^ 10) with quantity := 1 } 1 1 1) =
        .error (.redemptionCalculation .quantityAuthorityMismatch "redeemed_quantity"
          "values differ by more than the governed tolerance 1E-10.") := by decide +kernel
  exact ⟨_, _, _, hrun, hpreview, consume_unitLot, hsecond⟩

end LotusCore
