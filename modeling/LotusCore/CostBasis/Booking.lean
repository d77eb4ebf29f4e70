import LotusCore.CostBasis.Timeline

/-!
# What a calculation leaves of a booking

A cost calculation completes a transaction in place. It first normalizes the currencies and may fill
in the rate between equal currencies; a strategy then writes the calculated fields, and only a
redemption rewrites the quantity.

* `CostBasisTransaction.posted`: the transaction without its calculated fields; every strategy but
  the redemption keeps it.
* `CostBasisTransaction.routed`: the same without the quantity; every strategy keeps it.
* `CostBasisTransaction.booked`, `CostBasisTransaction.booking`: with and without the quantity, what
  is left when the currencies and the rate are taken away too.
* **`calculateTransactionCosts_booking`**, **`calculateTransactionCosts_booked`**: both survive
  every calculation, whether it is accepted, reported or raises.
-/

namespace LotusCore

open Exec

namespace CostBasisTransaction

/-- The transaction without the fields a strategy calculates. -/
def posted (t : CostBasisTransaction) : CostBasisTransaction :=
  { t with
    netCost := none
    grossCost := none
    realizedGainLoss := none
    netCostLocal := none
    realizedGainLossLocal := none
    lotRestatement := none
    allocatedCostBasisLocal := none
    allocatedCostBasisBase := none
    realizedCapitalPnlLocal := none
    realizedFxPnlLocal := none
    realizedTotalPnlLocal := none
    realizedCapitalPnlBase := none
    realizedFxPnlBase := none
    realizedTotalPnlBase := none
    fxRealizedPnlMode := none }

def routed (t : CostBasisTransaction) : CostBasisTransaction := { t.posted with quantity := 0 }

/-- The booked fields that no calculation writes. -/
def booking (t : CostBasisTransaction) : CostBasisTransaction :=
  { t with
    quantity := 0
    tradeCurrency := ""
    portfolioBaseCurrency := ""
    transactionFxRate := none
    netCost := none
    grossCost := none
    realizedGainLoss := none
    netCostLocal := none
    realizedGainLossLocal := none
    lotRestatement := none
    allocatedCostBasisLocal := none
    allocatedCostBasisBase := none
    realizedCapitalPnlLocal := none
    realizedFxPnlLocal := none
    realizedTotalPnlLocal := none
    realizedCapitalPnlBase := none
    realizedFxPnlBase := none
    realizedTotalPnlBase := none
    fxRealizedPnlMode := none }

/-- The booked fields and the quantity. -/
def booked (t : CostBasisTransaction) : CostBasisTransaction :=
  { t.booking with quantity := t.quantity }

variable {t t' : CostBasisTransaction}

theorem read_eq_of_posted_eq {β : Type} {g : CostBasisTransaction → β}
    (hg : ∀ x, g x.posted = g x) (h : t'.posted = t.posted) : g t' = g t := by
  rw [← hg t', h, hg]

theorem booking_booked (t : CostBasisTransaction) : t.booked.booking = t.booking := rfl

theorem booking_routed (t : CostBasisTransaction) : t.routed.booking = t.booking := rfl

theorem booking_eq_of_booked_eq (h : t'.booked = t.booked) : t'.booking = t.booking := by
  rw [← booking_booked t', h, booking_booked]

theorem booking_eq_of_routed_eq (h : t'.routed = t.routed) : t'.booking = t.booking := by
  rw [← booking_routed t', h, booking_routed]

end CostBasisTransaction

/-! ## Recorded errors -/

namespace ErrorCollector

variable {errors : ErrorCollector}

theorem hasErrorsFor_iff {id : String} :
    errors.hasErrorsFor id = true ↔ id ∈ errors.map Prod.fst := by
  simp [hasErrorsFor]

theorem map_fst_add (errors : ErrorCollector) (id reason : String) :
    (errors.add id reason).map Prod.fst =
      if errors.hasErrorsFor id then errors.map Prod.fst else errors.map Prod.fst ++ [id] := by
  unfold add hasErrorsFor
  cases h : errors.lookup id with
  | none => simp
  | some existing =>
    dsimp only
    split_ifs with h1 h2
    · rfl
    · exact absurd rfl h2
    · rw [List.map_map]
      refine List.map_congr_left fun p _ => ?_
      dsimp only [Function.comp_apply]
      split_ifs <;> rfl
    · rename_i h3
      exact absurd rfl h3

theorem hasErrorsFor_add (errors : ErrorCollector) (id reason : String) :
    (errors.add id reason).hasErrorsFor id = true := by
  rw [hasErrorsFor_iff, map_fst_add]
  split_ifs with h
  · exact hasErrorsFor_iff.mp h
  · simp

theorem hasErrorsFor_add_of {id : String} (id' reason : String)
    (h : errors.hasErrorsFor id = true) : (errors.add id' reason).hasErrorsFor id = true := by
  rw [hasErrorsFor_iff, map_fst_add]
  rw [hasErrorsFor_iff] at h
  split_ifs
  · exact h
  · exact List.mem_append_left _ h

end ErrorCollector

/-- What `read` takes from the transaction stays, and so does every recorded error. -/
structure Keeps (read : CostBasisTransaction → CostBasisTransaction) (s s' : CalculationState) :
    Prop where
  transaction : read s'.transaction = read s.transaction
  errors : ∀ id, s.errors.hasErrorsFor id = true → s'.errors.hasErrorsFor id = true

instance (read : CostBasisTransaction → CostBasisTransaction) : Std.Refl (Keeps read) :=
  ⟨fun _ => ⟨rfl, fun _ h => h⟩⟩

instance (read : CostBasisTransaction → CostBasisTransaction) :
    IsTrans CalculationState (Keeps read) :=
  ⟨fun _ _ _ h h' => ⟨h'.transaction.trans h.transaction, fun id hid =>
    h'.errors id (h.errors id hid)⟩⟩

/-- Everything but the calculated fields and the quantity stays. -/
abbrev KeepsRouted {α : Type} (m : Calc α) : Prop :=
  Frame (Keeps CostBasisTransaction.routed) m

/-- Everything but the calculated fields stays. -/
abbrev KeepsPosted {α : Type} (m : Calc α) : Prop :=
  Frame (Keeps CostBasisTransaction.posted) m

section Keeps

variable {α β : Type}

theorem KeepsPosted.keeps {m : Calc α} {read : CostBasisTransaction → CostBasisTransaction}
    (hread : ∀ t, read t.posted = read t) (h : KeepsPosted m) : Frame (Keeps read) m :=
  fun s => ⟨CostBasisTransaction.read_eq_of_posted_eq hread (h s).transaction, (h s).errors⟩

theorem KeepsPosted.keepsRouted {m : Calc α} (h : KeepsPosted m) : KeepsRouted m :=
  h.keeps fun _ => rfl

theorem keepsPosted_current : KeepsPosted current := fun _ => ⟨rfl, fun _ h => h⟩

theorem keepsPosted_availableQuantity : KeepsPosted availableQuantity :=
  fun _ => ⟨rfl, fun _ h => h⟩

theorem keepsPosted_report (reason : String) : KeepsPosted (report reason) :=
  fun _ => ⟨rfl, fun _ => ErrorCollector.hasErrorsFor_add_of _ _⟩

theorem keepsPosted_reportInvariant (label message : String) :
    KeepsPosted (reportInvariant label message) := keepsPosted_report _

theorem keepsPosted_withEngine (m : EStateM Raised LotDispositionEngine α) :
    KeepsPosted (withEngine m) := by
  unfold withEngine
  refine .zoom ?_ m
  intro s e
  exact ⟨rfl, fun _ h => h⟩

variable {f : CostBasisTransaction → CostBasisTransaction}

theorem keepsPosted_update (h : ∀ t, (f t).posted = t.posted) : KeepsPosted (update f) :=
  fun s => ⟨h s.transaction, fun _ h => h⟩

/-- A value that is computed and then written to a calculated field. -/
theorem KeepsPosted.assign {x : Except Raised α}
    {f : α → CostBasisTransaction → CostBasisTransaction} {k : α → Calc β}
    (hf : ∀ a t, (f a t).posted = t.posted) (hk : ∀ a, KeepsPosted (k a)) :
    KeepsPosted (do let a ← x; update (f a); k a) :=
  .bind (.liftM _) fun a => .bind (keepsPosted_update (hf a)) fun _ => hk a

theorem keepsRouted_update (h : ∀ t, (f t).routed = t.routed) : KeepsRouted (update f) :=
  fun s => ⟨h s.transaction, fun _ h => h⟩

end Keeps

/-! ## Strategies -/

theorem keepsPosted_applyZeroCostFields : KeepsPosted applyZeroCostFields :=
  keepsPosted_update fun _ => rfl

theorem keepsPosted_applyZeroRealizedPnl : KeepsPosted applyZeroRealizedPnl :=
  keepsPosted_update fun _ => rfl

theorem keepsPosted_applyNoRealizedPnl : KeepsPosted applyNoRealizedPnl :=
  keepsPosted_update fun _ => rfl

variable (label : String)

theorem keepsPosted_validateZeroQuantityAndPrice :
    KeepsPosted (validateZeroQuantityAndPrice label) := by
  unfold validateZeroQuantityAndPrice
  refine .bind keepsPosted_current fun t => .ite ?_ (.ite ?_ (.pure _))
  · exact .bind (keepsPosted_reportInvariant _ _) fun _ => .pure _
  · exact .bind (keepsPosted_reportInvariant _ _) fun _ => .pure _

theorem keepsPosted_validateZeroCostAndRealizedPnl :
    KeepsPosted (validateZeroCostAndRealizedPnl label) := by
  unfold validateZeroCostAndRealizedPnl
  exact .bind keepsPosted_current fun t => .ite (keepsPosted_reportInvariant _ _)
    (.ite (keepsPosted_reportInvariant _ _) (.pure _))

theorem keepsPosted_applyBuyCostFields : KeepsPosted applyBuyCostFields := by
  unfold applyBuyCostFields
  refine .bind keepsPosted_current fun t => ?_
  refine KeepsPosted.assign (fun _ _ => rfl) fun _ => ?_
  refine KeepsPosted.assign (fun _ _ => rfl) fun _ => ?_
  refine KeepsPosted.assign (fun _ _ => rfl) fun _ => ?_
  exact KeepsPosted.assign (fun _ _ => rfl) fun _ => keepsPosted_applyZeroRealizedPnl

theorem keepsPosted_validateBuyCostFields : KeepsPosted validateBuyCostFields := by
  unfold validateBuyCostFields
  refine .bind keepsPosted_current fun t => .ite ?_ ?_
  · exact .bind (keepsPosted_reportInvariant _ _) fun _ => .pure _
  · split
    · repeat' refine .ite (.bind (keepsPosted_reportInvariant _ _) fun _ =>
        .pure _) ?_
      exact .pure _
    · exact .bind (keepsPosted_reportInvariant _ _) fun _ => .pure _

theorem keepsPosted_recordBuyLot : KeepsPosted recordBuyLot := by
  unfold recordBuyLot
  exact .bind keepsPosted_current fun t =>
    .catching (keepsPosted_withEngine _) fun e => keepsPosted_report _

theorem keepsPosted_buyStrategy : KeepsPosted buyStrategy := by
  unfold buyStrategy
  exact .bind keepsPosted_applyBuyCostFields fun _ =>
    .bind keepsPosted_validateBuyCostFields fun _ =>
      .ite keepsPosted_recordBuyLot (.pure _)

theorem keepsPosted_validateSellQuantityAndProceeds (proceedsLocal proceedsBase : ℚ) :
    KeepsPosted (validateSellQuantityAndProceeds proceedsLocal proceedsBase) := by
  unfold validateSellQuantityAndProceeds
  refine .bind keepsPosted_current fun t => ?_
  repeat' refine .ite (.bind (keepsPosted_reportInvariant _ _) fun _ => .pure _) ?_
  exact .pure _

theorem keepsPosted_validateDisposalAvailability :
    KeepsPosted (validateDisposalAvailability label) := by
  unfold validateDisposalAvailability
  refine .bind keepsPosted_current fun t => .bind keepsPosted_availableQuantity fun q => ?_
  refine .ite (.pure _) ?_
  exact .ite (.bind (keepsPosted_reportInvariant _ _) fun _ => .pure _)
    (.bind (keepsPosted_reportInvariant _ _) fun _ => .pure _)

theorem keepsPosted_consumeDisposalCostBasis : KeepsPosted (consumeDisposalCostBasis label) := by
  unfold consumeDisposalCostBasis
  refine .bind keepsPosted_current fun t => .bind (keepsPosted_withEngine _) fun r => ?_
  split
  · exact .bind (keepsPosted_report _) fun _ => .pure _
  · repeat' refine .ite (.bind (keepsPosted_reportInvariant _ _) fun _ =>
      .pure _) ?_
    exact .pure _

theorem keepsPosted_applySellDisposalFields (pl pb cb cl : ℚ) :
    KeepsPosted (applySellDisposalFields pl pb cb cl) := by
  unfold applySellDisposalFields
  refine KeepsPosted.assign (fun _ _ => rfl) fun _ => ?_
  refine KeepsPosted.assign (fun _ _ => rfl) fun _ => ?_
  refine KeepsPosted.assign (fun _ _ => rfl) fun _ => ?_
  refine KeepsPosted.assign (fun _ _ => rfl) fun _ => ?_
  exact .bind (.liftM _) fun _ => keepsPosted_update fun _ => rfl

theorem keepsPosted_validateSellDisposalFields : KeepsPosted validateSellDisposalFields := by
  unfold validateSellDisposalFields
  refine .bind keepsPosted_current fun t => ?_
  split
  · exact .ite (keepsPosted_reportInvariant _ _) (.pure _)
  · exact keepsPosted_reportInvariant _ _

theorem keepsPosted_sellStrategy : KeepsPosted sellStrategy := by
  unfold sellStrategy
  refine .bind keepsPosted_current fun t => .bind (.liftM _) fun pl => ?_
  refine .bind (.liftM _) fun pb => ?_
  refine .bind (keepsPosted_validateSellQuantityAndProceeds _ _) fun _ => ?_
  refine .ite (.bind (keepsPosted_validateDisposalAvailability _) fun _ => ?_)
    (.pure _)
  refine .ite (.bind (keepsPosted_consumeDisposalCostBasis _) fun r => ?_)
    (.pure _)
  cases r with
  | none => exact .pure _
  | some r =>
    exact .bind (keepsPosted_applySellDisposalFields _ _ _ _) fun _ =>
      keepsPosted_validateSellDisposalFields

theorem keepsPosted_redemptionEconomics (position costLocal costBase : ℚ) :
    KeepsPosted (redemptionEconomics position costLocal costBase) := by
  unfold redemptionEconomics
  refine .bind keepsPosted_current fun t => .catching ?_ fun e => ?_
  · exact .bind (.liftM _) fun _ => .pure _
  · exact .bind (keepsPosted_report _) fun _ => .pure _

theorem keepsPosted_checkRedemptionEligible : KeepsPosted checkRedemptionEligible := by
  unfold checkRedemptionEligible
  refine .bind keepsPosted_current fun t => ?_
  split
  · exact .pure _
  · exact .bind (keepsPosted_report _) fun _ => .pure _

theorem keepsPosted_applyRedemptionFields (cl cb : ℚ) (economics : RedemptionEconomics) :
    KeepsPosted (applyRedemptionFields cl cb economics) := by
  unfold applyRedemptionFields
  refine KeepsPosted.assign (fun _ _ => rfl) fun _ => ?_
  refine KeepsPosted.assign (fun _ _ => rfl) fun _ => ?_
  exact .bind (.liftM _) fun _ => keepsPosted_update fun _ => rfl

/-- A redemption rewrites the quantity and nothing else that was booked. -/
theorem keepsRouted_redemptionStrategy : KeepsRouted redemptionStrategy := by
  unfold redemptionStrategy
  refine .bind keepsPosted_checkRedemptionEligible.keepsRouted fun _ => ?_
  refine .ite ?_ (.pure _)
  refine .bind keepsPosted_availableQuantity.keepsRouted fun position => ?_
  refine .bind (keepsPosted_redemptionEconomics _ _ _).keepsRouted fun preview => ?_
  cases preview with
  | none => exact .pure _
  | some preview =>
    refine .bind (keepsRouted_update fun _ => rfl) fun _ => ?_
    refine .bind keepsPosted_current.keepsRouted fun t => ?_
    refine .bind (keepsPosted_consumeDisposalCostBasis _).keepsRouted fun result => ?_
    cases result with
    | none => exact .pure _
    | some result =>
      refine .bind (keepsPosted_redemptionEconomics _ _ _).keepsRouted fun economics => ?_
      cases economics with
      | none => exact .pure _
      | some economics => exact (keepsPosted_applyRedemptionFields _ _ _).keepsRouted

theorem keepsPosted_cashInflowStrategy : KeepsPosted cashInflowStrategy := by
  unfold cashInflowStrategy
  refine .bind keepsPosted_current fun t => ?_
  refine .bind (keepsPosted_update fun _ => rfl) fun _ => ?_
  refine KeepsPosted.assign (fun _ _ => rfl) fun _ => ?_
  exact .bind keepsPosted_current fun t => keepsPosted_withEngine _

theorem keepsPosted_applyCashCost (amountLocal : ℚ) : KeepsPosted (applyCashCost amountLocal) := by
  unfold applyCashCost
  refine .bind (keepsPosted_update fun _ => rfl) fun _ => ?_
  refine .bind keepsPosted_current fun t => ?_
  exact KeepsPosted.assign (fun _ _ => rfl) fun _ => keepsPosted_applyNoRealizedPnl

theorem keepsPosted_cashOutflowStrategy : KeepsPosted cashOutflowStrategy := by
  unfold cashOutflowStrategy
  exact .bind keepsPosted_current fun t => .bind (.liftM _) fun _ =>
    keepsPosted_applyCashCost _

theorem keepsPosted_adjustmentStrategy : KeepsPosted adjustmentStrategy := by
  unfold adjustmentStrategy
  exact .bind keepsPosted_current fun t =>
    .ite (keepsPosted_reportInvariant _ _) (keepsPosted_applyCashCost _)

theorem keepsPosted_applyGrossAmountAsCost : KeepsPosted applyGrossAmountAsCost := by
  unfold applyGrossAmountAsCost
  refine .bind keepsPosted_current fun t => ?_
  refine .bind (keepsPosted_update fun _ => rfl) fun _ => ?_
  exact .bind (.liftM _) fun _ => keepsPosted_update fun _ => rfl

theorem keepsPosted_securityInflowStrategy : KeepsPosted securityInflowStrategy := by
  unfold securityInflowStrategy
  exact .bind keepsPosted_applyGrossAmountAsCost fun _ => .bind keepsPosted_current
    fun t => .ite keepsPosted_recordBuyLot (.pure _)

theorem keepsPosted_securityOutflowStrategy : KeepsPosted securityOutflowStrategy := by
  unfold securityOutflowStrategy
  refine .bind keepsPosted_current fun t => .bind (keepsPosted_withEngine _) fun r => ?_
  split
  · exact keepsPosted_report _
  · refine .ite ?_ (.pure _)
    refine KeepsPosted.assign (fun _ _ => rfl) fun _ => ?_
    exact KeepsPosted.assign (fun _ _ => rfl) fun _ => keepsPosted_applyNoRealizedPnl

theorem keepsPosted_partialTransferOutStrategy : KeepsPosted partialTransferOutStrategy := by
  unfold partialTransferOutStrategy
  refine .bind keepsPosted_current fun t =>
    .ite keepsPosted_securityOutflowStrategy ?_
  refine .bind (.liftM _) fun _ => .bind (keepsPosted_withEngine _) fun r => ?_
  split
  · exact keepsPosted_report _
  · exact .bind (keepsPosted_update fun _ => rfl) fun _ => keepsPosted_applyNoRealizedPnl

theorem keepsPosted_incomeStrategy : KeepsPosted incomeStrategy :=
  .bind keepsPosted_applyZeroCostFields fun _ => keepsPosted_applyNoRealizedPnl

theorem keepsPosted_cashEconomics : KeepsPosted (cashEconomics label) := by
  unfold cashEconomics
  refine .bind keepsPosted_current fun t => .ite ?_ (.catching ?_ fun e => ?_)
  · exact .bind (keepsPosted_reportInvariant _ _) fun _ => .pure _
  · exact .bind (.liftM _) fun _ => .pure _
  · exact .bind (keepsPosted_reportInvariant _ _) fun _ => .pure _

theorem keepsPosted_applyCorporateActionCashEconomics (e : CorporateActionCashEconomics) :
    KeepsPosted (applyCorporateActionCashEconomics e) := keepsPosted_update fun _ => rfl

theorem keepsPosted_cashConsiderationStrategy : KeepsPosted cashConsiderationStrategy := by
  unfold cashConsiderationStrategy
  refine .bind (keepsPosted_validateZeroQuantityAndPrice _) fun _ => ?_
  refine .ite (.bind (keepsPosted_cashEconomics _) fun economics => ?_) (.pure _)
  cases economics with
  | none => exact .pure _
  | some e => exact keepsPosted_applyCorporateActionCashEconomics e

theorem keepsPosted_cashInLieuStrategy : KeepsPosted cashInLieuStrategy := by
  unfold cashInLieuStrategy
  refine .bind keepsPosted_current fun t =>
    .ite (keepsPosted_reportInvariant _ _) ?_
  refine .bind (keepsPosted_cashEconomics _) fun economics => ?_
  cases economics with
  | none => exact .pure _
  | some e =>
    refine .bind (keepsPosted_validateDisposalAvailability _) fun _ => ?_
    refine .ite (.bind (keepsPosted_consumeDisposalCostBasis _) fun result => ?_)
      (.pure _)
    cases result with
    | none => exact .pure _
    | some r =>
      exact .bind keepsPosted_current fun _ => .ite (keepsPosted_reportInvariant _ _)
        (.ite (keepsPosted_reportInvariant _ _)
          (keepsPosted_applyCorporateActionCashEconomics e))

theorem keepsPosted_quantityRestatementStrategy : KeepsPosted quantityRestatementStrategy := by
  unfold quantityRestatementStrategy
  refine .bind keepsPosted_applyZeroCostFields fun _ => ?_
  refine .bind keepsPosted_applyZeroRealizedPnl fun _ => ?_
  refine .bind keepsPosted_current fun t => ?_
  split
  · exact keepsPosted_report _
  · refine .catching ?_ fun e => keepsPosted_report _
    exact .bind (keepsPosted_withEngine _) fun _ => keepsPosted_update fun _ => rfl

theorem keepsPosted_incomePosting (label message : String) :
    KeepsPosted (incomePosting label message) := by
  unfold incomePosting
  refine .bind (keepsPosted_validateZeroQuantityAndPrice _) fun _ => ?_
  exact .ite (.bind keepsPosted_current fun t =>
    .ite (keepsPosted_reportInvariant _ _) (keepsPosted_validateZeroCostAndRealizedPnl _))
    (.pure _)

theorem keepsPosted_dividendStrategy : KeepsPosted dividendStrategy :=
  .bind keepsPosted_applyZeroCostFields fun _ =>
    .bind keepsPosted_applyZeroRealizedPnl fun _ => keepsPosted_incomePosting _ _

theorem keepsPosted_interestStrategy : KeepsPosted interestStrategy := by
  unfold interestStrategy
  refine .bind keepsPosted_applyZeroCostFields fun _ => ?_
  refine .bind keepsPosted_applyZeroRealizedPnl fun _ => ?_
  exact .bind keepsPosted_current fun t =>
    .ite (keepsPosted_incomePosting _ _) (keepsPosted_reportInvariant _ _)

theorem fxBaselineUpdate_posted (mode : String) (t : CostBasisTransaction) :
    (fxBaselineUpdate mode t).posted = t.posted := by
  unfold fxBaselineUpdate
  dsimp only
  split_ifs <;> rfl

theorem keepsPosted_fxBaselineStrategy : KeepsPosted fxBaselineStrategy := by
  unfold fxBaselineStrategy
  refine .bind keepsPosted_current fun t => ?_
  split
  · exact keepsPosted_report _
  · exact .ite (keepsPosted_report _) (keepsPosted_update (fxBaselineUpdate_posted _))

variable {strategy : CostStrategy}

/-- Every strategy but the redemption keeps everything but the calculated fields. -/
theorem CostStrategy.keepsPosted (h : strategy ≠ .redemption) :
    KeepsPosted strategy.calculateCosts := by
  cases strategy with
  | buy => exact keepsPosted_buyStrategy
  | sell => exact keepsPosted_sellStrategy
  | fxBaseline => exact keepsPosted_fxBaselineStrategy
  | interest => exact keepsPosted_interestStrategy
  | dividend => exact keepsPosted_dividendStrategy
  | securityInflow => exact keepsPosted_securityInflowStrategy
  | securityOutflow => exact keepsPosted_securityOutflowStrategy
  | partialTransferOut => exact keepsPosted_partialTransferOutStrategy
  | cashConsideration => exact keepsPosted_cashConsiderationStrategy
  | cashInLieu => exact keepsPosted_cashInLieuStrategy
  | redemption => exact absurd rfl h
  | quantityRestatement => exact keepsPosted_quantityRestatementStrategy
  | default => exact keepsPosted_applyGrossAmountAsCost
  | income => exact keepsPosted_incomeStrategy
  | adjustment => exact keepsPosted_adjustmentStrategy
  | cashInflow => exact keepsPosted_cashInflowStrategy
  | cashOutflow => exact keepsPosted_cashOutflowStrategy

theorem CostStrategy.keepsRouted (strategy : CostStrategy) :
    KeepsRouted strategy.calculateCosts := by
  by_cases h : strategy = .redemption
  · rw [h]
    exact keepsRouted_redemptionStrategy
  · exact (CostStrategy.keepsPosted h).keepsRouted

/-! ## The calculation -/

theorem keepsBooked_validateTransactionCurrencyContext :
    Frame (Keeps CostBasisTransaction.booked) validateTransactionCurrencyContext := by
  have hpure : ∀ {α : Type} {m : Calc α}, KeepsPosted m →
      Frame (Keeps CostBasisTransaction.booked) m := fun hm => hm.keeps fun _ => rfl
  have hupdate : ∀ {f : CostBasisTransaction → CostBasisTransaction},
      (∀ t, (f t).booked = t.booked) → Frame (Keeps CostBasisTransaction.booked) (update f) :=
    fun hf s => ⟨hf s.transaction, fun _ h => h⟩
  unfold validateTransactionCurrencyContext
  refine .bind (hupdate fun t => ?_) fun _ => ?_
  · simp only [CostBasisTransaction.booked, CostBasisTransaction.booking]
  refine .bind (hpure keepsPosted_current) fun t => ?_
  refine .ite (.bind (hpure (keepsPosted_report _)) fun _ => .pure _) ?_
  refine .ite (.pure _) (.ite ?_ (.ite (.pure _) ?_))
  · exact .bind (hupdate fun _ => rfl) fun _ => .pure _
  · exact .bind (hpure (keepsPosted_report _)) fun _ => .pure _

theorem keepsPosted_resolveStrategy : KeepsPosted resolveStrategy := by
  unfold resolveStrategy
  refine .bind keepsPosted_current fun t => .ite ?_ ?_
  · exact .bind (keepsPosted_report _) fun _ => .pure _
  · split
    · exact .pure _
    · exact .bind (keepsPosted_report _) fun _ => .pure _

theorem resolveStrategy_eq_some {s s' : CalculationState} :
    resolveStrategy s = .ok (some strategy) s' ↔
      s' = s ∧ s.transaction.transactionType.isProductionBooking = true ∧
        strategyFor s.transaction = some strategy := by
  unfold resolveStrategy
  show (if _ then _ else _ : Calc _) s = _ ↔ _
  by_cases hp : s.transaction.transactionType.isProductionBooking = true
  · simp only [hp, Bool.not_true, Bool.false_eq_true, if_false, true_and]
    cases hs : strategyFor s.transaction with
    | none =>
      constructor
      · intro h
        obtain ⟨_, _, -, h⟩ := bind_eq_ok.mp h
        cases (pure_eq_ok.mp h).1
      · rintro ⟨-, h⟩
        cases h
    | some found =>
      simp only [pure_eq_ok, Option.some.injEq]
      exact ⟨fun h => ⟨h.2, h.1.symm⟩, fun h => ⟨h.2.symm, h.1⟩⟩
  · rw [if_pos (by simpa using hp)]
    constructor
    · intro h
      obtain ⟨_, _, -, h⟩ := bind_eq_ok.mp h
      cases (pure_eq_ok.mp h).1
    · rintro ⟨-, h, -⟩
      exact absurd h hp

section Calculation

variable {read : CostBasisTransaction → CostBasisTransaction}

/-- What the strategy keeps, its run with lineage and publication keeps. -/
theorem frame_runStrategy {input : List (String × ℚ)}
    (h : Frame (Keeps read) strategy.calculateCosts) :
    Frame (Keeps read) (runStrategy strategy input) := by
  unfold runStrategy
  refine .bind h fun _ => .bind .get fun s => .ite (.pure _) ?_
  refine .bind (.liftM _) fun _ => .bind (.liftM _) fun _ => ?_
  exact .zoom (fun _ _ => ⟨rfl, fun _ h => h⟩) _

theorem calculateTransactionCosts_keeps (s : CalculationState)
    (hread : ∀ t : CostBasisTransaction, read t.posted = read t)
    (h : ∀ strategy t, t.booked = s.transaction.booked → strategyFor t = some strategy →
      Frame (Keeps read) strategy.calculateCosts) :
    Keeps read (finalState (validateTransactionCurrencyContext s))
      (finalState (calculateTransactionCosts s)) := by
  have hkeep : ∀ {α : Type} {m : Calc α}, KeepsPosted m → Frame (Keeps read) m :=
    fun hm => hm.keeps hread
  have hb := (keepsBooked_validateTransactionCurrencyContext s).transaction
  show Keeps read (finalState (validateTransactionCurrencyContext s)) (finalState
    ((validateTransactionCurrencyContext >>= _) s))
  cases hv : validateTransactionCurrencyContext s with
  | error e s₁ =>
    show Keeps read s₁ (finalState (EStateM.bind _ _ s))
    simp only [EStateM.bind, hv]
    exact Std.Refl.refl _
  | ok valid s₁ =>
    have hb₁ : s₁.transaction.booked = s.transaction.booked := by rwa [hv] at hb
    show Keeps read s₁ (finalState (EStateM.bind _ _ s))
    simp only [EStateM.bind, hv]
    cases valid with
    | false => exact Std.Refl.refl _
    | true =>
      refine finalState_bind (hkeep keepsPosted_current s₁) fun t s₂ h₂ => ?_
      cases h₂
      show Keeps read s₁ (finalState ((if _ then _ else _ : Calc _) s₁))
      split_ifs
      · exact hkeep (keepsPosted_report _) _
      · split
        · exact hkeep (keepsPosted_report _) _
        · refine finalState_bind (hkeep keepsPosted_resolveStrategy s₁) fun found s₃ h₃ => ?_
          cases found with
          | none => exact Frame.pure _ _
          | some strategy =>
            obtain ⟨rfl, -, hs⟩ := resolveStrategy_eq_some.mp h₃
            refine Frame.bind (hkeep (keepsPosted_withEngine _)) (fun _ => ?_) _
            exact Frame.ensure (frame_runStrategy (h strategy _ hb₁ hs))
              (hkeep (keepsPosted_withEngine _))

end Calculation

/-- After the currency check no calculation writes a currency, the rate or another booked field,
apart from the quantity. -/
theorem calculateTransactionCosts_routed (s : CalculationState) :
    Keeps CostBasisTransaction.routed (finalState (validateTransactionCurrencyContext s))
      (finalState (calculateTransactionCosts s)) :=
  calculateTransactionCosts_keeps s (fun _ => rfl) fun strategy _ _ _ => strategy.keepsRouted

/-- **Bookings survive.** No calculation, whether accepted, reported or raising, writes a booked
field other than the quantity, the currencies and the rate, or drops a recorded error. -/
theorem calculateTransactionCosts_booking (s : CalculationState) :
    Keeps CostBasisTransaction.booking s (finalState (calculateTransactionCosts s)) := by
  have hcheck := keepsBooked_validateTransactionCurrencyContext s
  have hrest := calculateTransactionCosts_routed s
  constructor
  · exact (CostBasisTransaction.booking_eq_of_routed_eq hrest.transaction).trans
      (CostBasisTransaction.booking_eq_of_booked_eq hcheck.transaction)
  · intro id hid
    exact hrest.errors id (hcheck.errors id hid)

theorem isRedemption_of_strategyFor {t : CostBasisTransaction}
    (h : strategyFor t = some .redemption) : t.transactionType.isRedemption = true := by
  have hcash : cashStrategy t.transactionType ≠ some .redemption := by
    cases t.transactionType <;> simp [cashStrategy]
  have hreg : registeredStrategy t.transactionType = some .redemption := by
    unfold strategyFor at h
    split_ifs at h
    · cases hc : cashStrategy t.transactionType with
      | none => simpa [hc] using h
      | some c =>
        rw [hc] at h hcash
        exact absurd h hcash
    · exact h
  cases ht : t.transactionType <;> rw [ht] at hreg <;> first | rfl | cases hreg

variable {s : CalculationState}

/-- After the currency check only the calculation of a redemption writes anything but calculated
fields. -/
theorem calculateTransactionCosts_posted (h : s.transaction.transactionType.isRedemption = false) :
    Keeps CostBasisTransaction.posted (finalState (validateTransactionCurrencyContext s))
      (finalState (calculateTransactionCosts s)) := by
  refine calculateTransactionCosts_keeps s (fun _ => rfl) fun strategy t ht hs => ?_
  refine CostStrategy.keepsPosted fun heq => ?_
  have htype : t.transactionType = s.transaction.transactionType := by
    have : t.booked.transactionType = s.transaction.booked.transactionType := by rw [ht]
    exact this
  rw [heq] at hs
  have hred := isRedemption_of_strategyFor hs
  rw [htype, h] at hred
  cases hred

/-- **Quantities survive.** Only the calculation of a redemption writes the quantity. -/
theorem calculateTransactionCosts_booked (h : s.transaction.transactionType.isRedemption = false) :
    (finalState (calculateTransactionCosts s)).transaction.booked = s.transaction.booked :=
  (CostBasisTransaction.read_eq_of_posted_eq (fun _ => rfl)
    (calculateTransactionCosts_posted h).transaction).trans
      (keepsBooked_validateTransactionCurrencyContext s).transaction

end LotusCore
