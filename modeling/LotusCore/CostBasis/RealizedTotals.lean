import LotusCore.CostBasis.Checkpoint
import LotusCore.CostBasis.RedemptionPasses

/-!
# Total realized gain

Over a history of purchases and sales that ends with nothing left, the realized gains add up to the
proceeds less the costs, whichever method has divided the costs among the sales.

* `accepts_buyStrategy`, `accepts_sellStrategy`: what an accepted purchase and an accepted sale did.
* `CostBasisBooks.Moved`: the costs of a book before and after a step.
* `costMovementLocal`, `costMovementBase`: the movement a calculated trade stands for.
* `processSortedTimeline_moved`: a timeline moves the costs by the sum over its trades.
* **`realized_total_exact`**: the total over a closed history.
-/

namespace LotusCore

open Exec Decimal Ledger

/-! ## The evidence leaves the books alone -/

namespace LotDispositionEngine

/-- The evidence may differ, the books do not. -/
def SameBooks (e e' : LotDispositionEngine) : Prop := e'.books = e.books

instance : Std.Refl SameBooks := ⟨fun _ => rfl⟩

instance : IsTrans LotDispositionEngine SameBooks := ⟨fun _ _ _ h₁ h₂ => h₂.trans h₁⟩

theorem keepsBooks_stageDisposal (d : TransactionLotDisposal) :
    Frame SameBooks (stageDisposal d) :=
  .bind .get fun _ => .bind (.liftM _) fun _ _ => rfl

theorem keepsBooks_recordDisposal (d : TransactionLotDisposal) :
    Frame SameBooks (recordDisposal d) :=
  .bind .get fun _ => .bind (.liftM _) fun _ _ => rfl

theorem keepsBooks_recordBasisTransfer (d : TransactionLotBasisTransfer) :
    Frame SameBooks (recordBasisTransfer d) :=
  .bind .get fun _ => .bind (.liftM _) fun _ _ => rfl

theorem keepsBooks_commitDisposalRecord (id : String) :
    Frame SameBooks (commitDisposalRecord id) := by
  refine Frame.bind (Frame.liftM _) fun key => Frame.bind Frame.get fun e =>
    Frame.bind (fun _ => rfl) fun _ => ?_
  dsimp only
  split
  on_goal 1 => refine Frame.bind (keepsBooks_recordDisposal _) fun _ => ?_
  -- with or without a pending disposal, the pending transfer follows
  all_goals
    refine Frame.bind Frame.get fun e => Frame.bind (fun _ => rfl) fun _ => ?_
    split
    · exact keepsBooks_recordBasisTransfer _
    · exact Frame.pure _

variable {e e' : LotDispositionEngine}

theorem consume_books {t : CostBasisTransaction} {r : LotDisposalResult}
    (h : consume t e = .ok r e') :
    CostBasisBooks.consume t.bookKey t.quantity e.books = .ok r e'.books := by
  unfold consume at h
  obtain ⟨r', e₁, hbooks, h⟩ := bind_eq_ok.mp h
  obtain ⟨b, hb, rfl⟩ := onBooks_eq_ok.mp hbooks
  dsimp only at h
  split_ifs at h
  · obtain ⟨d, -, h⟩ := bind_liftM_eq_ok.mp h
    obtain ⟨_, e₂, hstage, h⟩ := bind_eq_ok.mp h
    obtain ⟨rfl, rfl⟩ := pure_eq_ok.mp h
    have hkeep := keepsBooks_stageDisposal d { e with books := b }
    rw [hstage] at hkeep
    exact hb.trans (congrArg _ hkeep.symm)
  · obtain ⟨rfl, rfl⟩ := pure_eq_ok.mp h
    exact hb

end LotDispositionEngine

/-! ## Accepted purchases and sales -/

section Strategies

variable {s s' : CalculationState}

theorem Checks.report_ite {p : CalculationState → Prop} {c : Prop} [Decidable c] {m : Calc Bool}
    {reason : String} (hm : Checks m p) :
    Checks (if c then report reason >>= fun _ => pure false else m) fun s => ¬ c ∧ p s where
  passes h := by
    rw [if_neg h.1]
    exact hm.passes h.2
  reports {s} h := by
    by_cases hc : c
    · rw [if_pos hc]
      exact ⟨reason, rfl⟩
    · rw [if_neg hc]
      exact hm.reports fun hp => h ⟨hc, hp⟩

/-- The calculated costs of a purchase: gross, local and base, none of them negative. -/
def HasBuyCosts (t : CostBasisTransaction) : Prop :=
  ∃ g l n, t.grossCost = some g ∧ t.netCostLocal = some l ∧ t.netCost = some n ∧
    0 ≤ g ∧ 0 ≤ l ∧ 0 ≤ n ∧ hasNonZeroRealizedPnl t = false

theorem checks_validateBuyCostFields :
    Checks validateBuyCostFields fun s =>
      0 < s.transaction.quantity ∧ HasBuyCosts s.transaction := by
  unfold validateBuyCostFields
  refine Checks.congr
    (Checks.current (P := fun t _ => ¬ t.quantity ≤ 0 ∧ HasBuyCosts t) fun t => ?_)
    fun s => by rw [not_le]
  unfold HasBuyCosts
  refine Checks.report_ite (p := fun _ => _) ?_
  cases hg : t.grossCost with
  | none => exact Checks.congr checks_report (by simp)
  | some g =>
    cases hl : t.netCostLocal with
    | none => exact Checks.congr checks_report (by simp)
    | some l =>
      cases hn : t.netCost with
      | none => exact Checks.congr checks_report (by simp)
      | some n =>
        refine Checks.congr (Checks.report_ite (Checks.report_ite (Checks.report_ite
          (Checks.report_ite checks_true)))) fun s => ?_
        simp

theorem checks_validateSellQuantityAndProceeds (pl pb : ℚ) :
    Checks (validateSellQuantityAndProceeds pl pb) fun s =>
      0 ≤ pl ∧ 0 ≤ pb ∧ 0 < s.transaction.quantity := by
  unfold validateSellQuantityAndProceeds
  refine Checks.congr (Checks.current fun t =>
    Checks.report_ite (Checks.report_ite (Checks.report_ite checks_true))) fun s => ?_
  simp

theorem checks_validateDisposalAvailability (label : String) :
    Checks (validateDisposalAvailability label) fun s =>
      s.transaction.quantity ≤ s.engine.books.availableQuantity s.transaction.bookKey where
  passes {s} h := by
    show (if _ then _ else _ : Calc Bool) s = _
    rw [if_pos h]
    rfl
  reports {s} h := by
    have hrun : validateDisposalAvailability label s = (if _ then _ else _ : Calc Bool) s := rfl
    rw [hrun, if_neg h]
    split_ifs
    · exact ⟨_, rfl⟩
    · exact ⟨_, rfl⟩

theorem accepts_recordBuyLot (h : Accepts recordBuyLot s s') (hpos : 0 < s.transaction.quantity) :
    s'.transaction = s.transaction ∧
      CostBasisBooks.addBuyLot s.transaction s.engine.books = .ok () s'.engine.books := by
  obtain ⟨hrun, hclean⟩ := h
  unfold recordBuyLot at hrun
  rw [bind_current_eq_ok] at hrun
  unfold catching at hrun
  cases hadd : withEngine (LotDispositionEngine.addBuyLot s.transaction) s with
  | error e s₁ =>
    simp only [hadd] at hrun
    split_ifs at hrun
    exact absurd hclean (not_clean_of_report hrun)
  | ok u s₁ =>
    simp only [hadd] at hrun
    cases hrun
    obtain ⟨e, he, rfl⟩ := withEngine_eq_ok.mp hadd
    unfold LotDispositionEngine.addBuyLot at he
    rw [if_pos hpos] at he
    obtain ⟨b, hb, rfl⟩ := LotDispositionEngine.onBooks_eq_ok.mp he
    exact ⟨rfl, hb⟩

/-- An accepted purchase has costs the ledger holds and has opened a lot with them. -/
theorem accepts_buyStrategy (h : Accepts buyStrategy s s') :
    ∃ l n, Storable l ∧ Storable n ∧ 0 < s.transaction.quantity ∧
      s'.transaction.booked = s.transaction.booked ∧ s'.transaction.netCostLocal = some l ∧
      s'.transaction.netCost = some n ∧
      CostBasisBooks.addBuyLot s'.transaction s.engine.books = .ok () s'.engine.books := by
  obtain ⟨hrun, hclean⟩ := h
  unfold buyStrategy at hrun
  obtain ⟨_, s₁, hfields, hrun⟩ := bind_eq_ok.mp hrun
  unfold applyBuyCostFields applyZeroRealizedPnl update at hfields
  simp only [bind_current_eq_ok, bind_liftM_eq_ok, bind_modify_eq_ok, modify_eq_ok] at hfields
  obtain ⟨g, -, f, hf, l, hl, n, hn, rfl⟩ := hfields
  have hls : Storable l := by
    unfold buyBookCostLocal at hl
    split_ifs at hl
    · cases hl
      exact storable_of_add hf
    · exact storable_of_add hl
  obtain ⟨⟨hpos, -⟩, hrecord, -⟩ := checks_validateBuyCostFields.accepts_ite.mp ⟨hrun, hclean⟩
  obtain ⟨ht, hadd⟩ := accepts_recordBuyLot ⟨hrecord, hclean⟩ hpos
  rw [ht]
  exact ⟨l, n, hls, (multiply_eq_ok.mp hn).2, hpos, rfl, rfl, rfl, hadd⟩

theorem accepts_sellStrategy (h : Accepts sellStrategy s s') :
    ∃ pl pb r gl g, netSellProceedsLocal s.transaction = .ok pl ∧
      transactionCostLedger.multiply pl s.transaction.fxRateOrOne "net_sell_proceeds_base" =
        .ok pb ∧
      CostBasisBooks.consume s.transaction.bookKey s.transaction.quantity s.engine.books =
        .ok r s'.engine.books ∧ r.errorReason = none ∧
      transactionCostLedger.subtract pl r.costLocal "realized_gain_loss_local" = .ok gl ∧
      transactionCostLedger.subtract pb r.costBase "realized_gain_loss" = .ok g ∧
      s'.transaction.posted = s.transaction.posted ∧
      s'.transaction.realizedGainLossLocal = some gl ∧
      s'.transaction.realizedGainLoss = some g := by
  obtain ⟨hrun, hclean⟩ := h
  unfold sellStrategy at hrun
  simp only [bind_current_eq_ok, bind_liftM_eq_ok] at hrun
  obtain ⟨pl, hpl, pb, hpb, hrun⟩ := hrun
  obtain ⟨-, hchecked⟩ :=
    (checks_validateSellQuantityAndProceeds pl pb).accepts_ite.mp ⟨hrun, hclean⟩
  obtain ⟨-, hconsumed, -⟩ := (checks_validateDisposalAvailability "SELL").accepts_ite.mp hchecked
  obtain ⟨found, s₁, hfound, hrest⟩ := bind_eq_ok.mp hconsumed
  unfold consumeDisposalCostBasis at hfound
  simp only [bind_current_eq_ok, bind_withEngine_eq_ok] at hfound
  obtain ⟨r, e, hconsume, hfound⟩ := hfound
  have hbooks := LotDispositionEngine.consume_books hconsume
  -- a disposal that was refused has been reported
  have hunreported : ∀ {reason : String},
      (report reason >>= fun _ => pure none) { s with engine := e } = .ok found s₁ → False := by
    intro reason hreport
    obtain ⟨_, s₂, h₁, h₂⟩ := bind_eq_ok.mp hreport
    obtain ⟨rfl, rfl⟩ := pure_eq_ok.mp h₂
    obtain ⟨-, rfl⟩ := pure_eq_ok.mp hrest
    exact absurd hclean (not_clean_of_report h₁)
  cases hr : r.errorReason with
  | some reason =>
    simp only [hr] at hfound
    exact (hunreported hfound).elim
  | none =>
    simp only [hr] at hfound
    split_ifs at hfound
    · exact (hunreported hfound).elim
    · exact (hunreported hfound).elim
    obtain ⟨rfl, rfl⟩ := pure_eq_ok.mp hfound
    obtain ⟨_, s₂, hfields, hvalidate⟩ := bind_eq_ok.mp hrest
    unfold applySellDisposalFields update at hfields
    simp only [bind_liftM_eq_ok, bind_modify_eq_ok, modify_eq_ok] at hfields
    obtain ⟨gl, hgl, g, hg, n, -, l, -, c, -, rfl⟩ := hfields
    unfold validateSellDisposalFields at hvalidate
    rw [bind_current_eq_ok] at hvalidate
    dsimp only at hvalidate
    split_ifs at hvalidate
    · obtain ⟨-, rfl⟩ := pure_eq_ok.mp hvalidate
      exact ⟨pl, pb, r, gl, g, hpl, hpb, hbooks, hr, hgl, hg, rfl, rfl, rfl⟩
    · exact absurd hclean (not_clean_of_report hvalidate)

end Strategies

/-! ## Pools -/

namespace AverageCostPool

variable {p p' : AverageCostPool} {q l b : ℚ} {u : Unit}

/-- The ledger holds quantity and costs of the pool, and an empty pool has no cost. -/
structure Stored (p : AverageCostPool) : Prop where
  quantity : Storable p.quantity
  quantity_nonneg : 0 ≤ p.quantity
  costLocal : Storable p.costLocal
  costBase : Storable p.costBase
  closed : p.quantity = 0 → p.costLocal = 0 ∧ p.costBase = 0

theorem add_stored (hp : p.Stored) (hq : Storable q) (hpos : 0 < q) (hl : Storable l)
    (hb : Storable b) (h : add q l b p = .ok u p') :
    p'.Stored ∧ p'.quantity = p.quantity + q ∧ p'.costLocal = p.costLocal + l ∧
      p'.costBase = p.costBase + b := by
  unfold add at h
  simp only [bind_get_eq_ok, bind_liftM_eq_ok, bind_modify_eq_ok, modify_eq_ok,
    add_eq_ok hp.quantity hq, add_eq_ok hp.costLocal hl,
    add_eq_ok hp.costBase hb] at h
  obtain ⟨_, ⟨rfl, hqs⟩, _, ⟨rfl, hls⟩, _, ⟨rfl, hbs⟩, rfl⟩ := h
  have hquantity : 0 < p.quantity + q := add_pos_of_nonneg_of_pos hp.quantity_nonneg hpos
  exact ⟨⟨hqs, hquantity.le, hls, hbs, fun hzero => absurd hzero hquantity.ne'⟩, rfl, rfl, rfl⟩

theorem setRemainingCosts_stored {after : ℚ} (h : setRemainingCosts after p = .ok u p') :
    p'.quantity = p.quantity ∧ Storable p'.costLocal ∧ Storable p'.costBase ∧
      (after = 0 → p'.costLocal = 0 ∧ p'.costBase = 0) := by
  unfold setRemainingCosts at h
  rw [bind_get_eq_ok] at h
  by_cases hzero : after = 0
  · rw [if_pos hzero, modify_eq_ok] at h
    subst h
    exact ⟨rfl, storable_zero, storable_zero, fun _ => ⟨rfl, rfl⟩⟩
  · simp only [if_neg hzero, bind_liftM_eq_ok, bind_modify_eq_ok, modify_eq_ok,
      normalize_eq_ok] at h
    obtain ⟨_, -, _, -, _, ⟨-, hl⟩, _, ⟨-, hb⟩, rfl⟩ := h
    exact ⟨rfl, hl, hb, fun h => absurd h hzero⟩

/-- A completed disposal gives out what the pool loses. -/
theorem dispose_stored (hp : p.Stored) (hq : Storable q) (hle : q ≤ p.quantity) {cost : ℚ × ℚ}
    (h : dispose q p = .ok cost p') :
    p'.Stored ∧ p'.quantity = p.quantity - q ∧
      cost = (p.costBase - p'.costBase, p.costLocal - p'.costLocal) := by
  unfold dispose at h
  simp only [bind_get_eq_ok, bind_liftM_eq_ok, subtract_eq_ok hp.quantity hq] at h
  obtain ⟨_, ⟨rfl, hqs⟩, h⟩ := h
  obtain ⟨_, p₁, hset, h⟩ := bind_eq_ok.mp h
  obtain ⟨-, hl, hb, hclosed⟩ := setRemainingCosts_stored hset
  simp only [bind_modify_eq_ok, bind_get_eq_ok, bind_liftM_eq_ok, pure_eq_ok,
    subtract_eq_ok hp.costBase hb, subtract_eq_ok hp.costLocal hl] at h
  obtain ⟨_, ⟨rfl, -⟩, _, ⟨rfl, -⟩, rfl, rfl⟩ := h
  exact ⟨⟨hqs, sub_nonneg.mpr hle, hl, hb, hclosed⟩, rfl, rfl⟩

end AverageCostPool

/-! ## Totals of a book -/

namespace CostBasisBooks

variable {books b : CostBasisBooks} {key : BookKey}

/-- One book was built from storable values. -/
def SoundAt (books : CostBasisBooks) (key : BookKey) : Prop :=
  match books with
  | .fifo f => (f key).Sound
  | .avco a _ => (a key).pool.Stored

theorem soundAt_empty (method : CostBasisMethod) (key : BookKey) : (empty method).SoundAt key := by
  cases method with
  | fifo => exact FifoBook.sound_empty
  | avco => exact ⟨storable_zero, le_rfl, storable_zero, storable_zero, fun _ => ⟨rfl, rfl⟩⟩

theorem SoundAt.closed (h : books.SoundAt key) (hzero : books.availableQuantity key = 0) :
    (books.totals key).costLocal = 0 ∧ (books.totals key).costBase = 0 := by
  cases books with
  | avco a ids => exact AverageCostPool.Stored.closed h hzero
  | fifo f =>
    have hnil : (f key).openLots = [] := by
      by_contra hne
      have hopen : (f key).openQuantity = 0 := (FifoBook.Sound.available_eq h).symm.trans hzero
      have hpos : 0 < ((f key).openLots.map (·.remainingQuantity)).sum :=
        List.sum_pos _ (by simpa using fun lot hlot =>
          (FifoBook.Sound.lots h lot hlot).remaining_pos) (by simpa using hne)
      exact hpos.ne' hopen
    simp [totals, FifoBook.costLocal, FifoBook.costBase, hnil]

/-- The costs of one book moved. -/
structure Moved (books b : CostBasisBooks) (key : BookKey) (costLocal costBase : ℚ) : Prop where
  sound : b.SoundAt key
  costLocal_eq : (b.totals key).costLocal = (books.totals key).costLocal + costLocal
  costBase_eq : (b.totals key).costBase = (books.totals key).costBase + costBase

theorem addBuyLot_moved {t : CostBasisTransaction} {l n : ℚ} (hs : books.SoundAt t.bookKey)
    (hpos : 0 < t.quantity) (hq : Storable t.quantity) (hl : Storable l) (hn : Storable n)
    (htl : t.netCostLocal = some l) (htn : t.netCost = some n)
    (h : addBuyLot t books = .ok () b) : Moved books b t.bookKey l n := by
  have hcosts : (∀ c ∈ t.netCost, Storable c) ∧ ∀ c ∈ t.netCostLocal, Storable c := by
    simpa [htl, htn] using ⟨hn, hl⟩
  cases books with
  | fifo f =>
    obtain ⟨book, hbook, rfl⟩ := addBuyLot_fifo_eq_ok.mp h
    obtain ⟨hsound, -, hlocal, hbase⟩ := fifoAddBuyLot_sound hs hq hcosts.1 hcosts.2 hbook
    rw [htl, Option.getD_some] at hlocal
    rw [htn, Option.getD_some] at hbase
    constructor <;> simpa [SoundAt, totals]
  | avco a ids =>
    obtain ⟨book, hbook, rfl⟩ := addBuyLot_avco_eq_ok.mp h
    rcases avcoAddBuyLot_eq_ok.mp hbook with ⟨hnone, -⟩ | ⟨q, c, k, p, o, hin, hadd, -, -, rfl⟩
    · exact absurd (validatedBuyLotInputs_eq_none hnone).1 hpos.ne'
    · obtain ⟨rfl, hc, hk, -, -, -⟩ := validatedBuyLotInputs_eq_some.mp hin
      rw [htn, Option.some.injEq] at hc
      rw [htl, Option.some.injEq] at hk
      subst hc hk
      obtain ⟨hstored, -, hlocal, hbase⟩ := AverageCostPool.add_stored hs hq hpos hl hn hadd
      constructor <;> simpa [SoundAt, totals, AvcoBook.withSource]

theorem consume_moved {q : ℚ} {r : LotDisposalResult} (hs : books.SoundAt key) (hq : Storable q)
    (h : consume key q books = .ok r b) (hr : r.errorReason = none) :
    Moved books b key (-r.costLocal) (-r.costBase) := by
  cases books with
  | fifo f =>
    obtain ⟨book, hbook, rfl⟩ := onBook_fifo_eq_ok.mp h
    obtain ⟨hsound, -, hlocal, hbase⟩ := fifoConsume_sound hs hq hbook
    constructor
    · simpa [SoundAt] using hsound
    all_goals
      simp only [totals, Function.update_self]
      linarith
  | avco a ids =>
    obtain ⟨book, hbook, rfl⟩ := onBook_avco_eq_ok.mp h
    rcases avcoConsume_cases hbook with ⟨rfl, ⟨-, rfl⟩ | ⟨reason, rfl⟩⟩ |
      ⟨-, hle, _, _, cost, p, _, _, -, hdispose, rfl, -, -, -, -, -, hnew⟩
    · rw [Function.update_eq_self]
      exact ⟨hs, by simp [LotDisposalResult.empty], by simp [LotDisposalResult.empty]⟩
    · cases hr
    · obtain ⟨hstored, -, rfl⟩ := AverageCostPool.dispose_stored hs hq hle hdispose
      obtain ⟨rfl, -, -, -⟩ := LotDisposalResult.new_eq_ok hnew
      constructor
      · simpa [SoundAt, AvcoBook.afterDisposal_pool] using hstored
      all_goals
        simp only [totals, Function.update_self, AvcoBook.afterDisposal_pool]
        ring

theorem Moved.refl (h : books.SoundAt key) : Moved books books key 0 0 :=
  ⟨h, (add_zero _).symm, (add_zero _).symm⟩

theorem Moved.trans {b' : CostBasisBooks} {l n l' n' : ℚ} (h : Moved books b key l n)
    (h' : Moved b b' key l' n') : Moved books b' key (l + l') (n + n') :=
  ⟨h'.sound, by rw [h'.costLocal_eq, h.costLocal_eq, add_assoc],
    by rw [h'.costBase_eq, h.costBase_eq, add_assoc]⟩

end CostBasisBooks

/-! ## Trades -/

def netProceedsLocal (t : CostBasisTransaction) : ℚ :=
  quantize 10 (workingRound (t.grossTransactionAmount - t.fees.totalFees))

def netProceedsBase (t : CostBasisTransaction) : ℚ :=
  extendedCost (netProceedsLocal t) t.fxRateOrOne

/-- A parsed purchase or sale in one book that is not of cash, of a quantity the ledger holds. -/
structure IsTrade (key : BookKey) (t : CostBasisTransaction) : Prop where
  type : t.transactionType = .buy ∨ t.transactionType = .sell
  security : t.isCash = false
  bookKey : t.bookKey = key
  quantity : Storable t.quantity
  parsed : t.errorReason.getD "" = ""

/-- The cost a calculated trade brings into its book. A sale brings its gain less its proceeds. -/
def costMovement (cost gain proceeds : CostBasisTransaction → ℚ) (t : CostBasisTransaction) : ℚ :=
  if t.transactionType = .buy then cost t else gain t - proceeds t

def costMovementLocal : CostBasisTransaction → ℚ :=
  costMovement (·.netCostLocal.getD 0) (·.realizedGainLossLocal.getD 0) netProceedsLocal

def costMovementBase : CostBasisTransaction → ℚ :=
  costMovement (·.netCost.getD 0) (·.realizedGainLoss.getD 0) netProceedsBase

section Runs

variable {key : BookKey} {s s' : TimelineState} {t t' : CostBasisTransaction}

theorem calculateTransaction_moved (ht : IsTrade key t) (hs : s.engine.books.SoundAt key)
    (h : calculateTransaction s t = (s', t', true)) :
    CostBasisBooks.Moved s.engine.books s'.engine.books key (costMovementLocal t')
      (costMovementBase t') := by
  obtain ⟨strategy, s₁, e, hstrategy, -, hrun, hcommit, hs'⟩ :=
    accepts_calculateTransactionCosts.mp (calculateTransaction_eq_true_iff_accepts.mp h)
  have hbooks : s'.engine.books = s₁.engine.books := by
    have he := LotDispositionEngine.keepsBooks_commitDisposalRecord s₁.transaction.transactionId
      s₁.engine
    rw [hcommit] at he
    rw [show s'.engine = _ from congrArg CalculationState.engine hs']
    exact he
  obtain rfl : t' = s₁.transaction := congrArg CalculationState.transaction hs'
  rw [hbooks]
  obtain rfl := ht.bookKey
  simp only [strategyFor, ht.security, Bool.false_eq_true, if_false] at hstrategy
  unfold costMovementLocal costMovementBase costMovement
  rcases ht.type with htype | htype
  · rw [htype] at hstrategy
    cases hstrategy
    obtain ⟨l, n, hl, hn, hpos, hbooked, htl, htn, hadd⟩ := accepts_buyStrategy hrun
    have hq : s₁.transaction.quantity = t.quantity := congrArg (·.quantity) hbooked
    have hkey : s₁.transaction.bookKey = t.bookKey := congrArg (·.bookKey) hbooked
    have htype' : s₁.transaction.transactionType = .buy :=
      (congrArg (·.transactionType) hbooked).trans htype
    simp only [if_pos htype', htl, htn, Option.getD_some]
    rw [← hkey] at hs ⊢
    exact CostBasisBooks.addBuyLot_moved hs (hq ▸ hpos) (hq ▸ ht.quantity) hl hn htl htn hadd
  · rw [htype] at hstrategy
    cases hstrategy
    obtain ⟨pl, pb, r, gl, g, hpl, hpb, hconsume, hr, hgl, hg, hposted, htl, htn⟩ :=
      accepts_sellStrategy hrun
    have hsell : s₁.transaction.transactionType = .sell :=
      (congrArg (·.transactionType) hposted).trans htype
    have htype' : s₁.transaction.transactionType ≠ .buy := by
      rw [hsell]
      decide
    have hlocal : pl = netProceedsLocal s₁.transaction := by
      rw [CostBasisTransaction.read_eq_of_posted_eq (g := netProceedsLocal) (fun _ => rfl) hposted]
      exact (normalize_eq_ok.mp hpl).1
    have hbase : pb = netProceedsBase s₁.transaction := by
      rw [netProceedsBase, ← hlocal, CostBasisTransaction.read_eq_of_posted_eq
        (g := (·.fxRateOrOne)) (fun _ => rfl) hposted]
      exact (multiply_eq_ok.mp hpb).1
    obtain ⟨hcl, hcb, -, -⟩ := CostBasisBooks.consume_costs hconsume
    obtain ⟨rfl, -⟩ := (subtract_eq_ok (storable_of_subtract hpl) hcl).mp hgl
    obtain ⟨rfl, -⟩ := (subtract_eq_ok (multiply_eq_ok.mp hpb).2 hcb).mp hg
    have hmoved := CostBasisBooks.consume_moved hs ht.quantity hconsume hr
    simpa [if_neg htype', htl, htn, ← hlocal, ← hbase] using hmoved

theorem processSortedTimeline_moved {timeline : List CostBasisTransaction}
    (ht : ∀ t ∈ timeline, IsTrade key t) (hs : s.engine.books.SoundAt key)
    (h : (processSortedTimeline s timeline).1.errors = []) :
    CostBasisBooks.Moved s.engine.books (processSortedTimeline s timeline).1.engine.books key
      ((processSortedTimeline s timeline).2.map costMovementLocal).sum
      ((processSortedTimeline s timeline).2.map costMovementBase).sum := by
  induction timeline generalizing s with
  | nil => exact .refl hs
  | cons t timeline ih =>
    obtain ⟨s', t', hrun, heq⟩ := processSortedTimeline_cons_of_accepted h
    rw [heq] at h ⊢
    have hstep := calculateTransaction_moved (ht t (by simp)) hs hrun
    exact hstep.trans (ih (fun u hu => ht u (by simp [hu])) hstep.sound h)

end Runs

def purchases (l : List CostBasisTransaction) : List CostBasisTransaction :=
  l.filter (·.transactionType = .buy)

def sales (l : List CostBasisTransaction) : List CostBasisTransaction :=
  l.filter (·.transactionType = .sell)

theorem sum_costMovement (cost gain proceeds : CostBasisTransaction → ℚ)
    {l : List CostBasisTransaction}
    (h : ∀ t ∈ l, t.transactionType = .buy ∨ t.transactionType = .sell) :
    (l.map (costMovement cost gain proceeds)).sum =
      ((purchases l).map cost).sum + ((sales l).map gain).sum - ((sales l).map proceeds).sum := by
  induction l with
  | nil => simp [purchases, sales]
  | cons t l ih =>
    have hrest := ih fun u hu => h u (by simp [hu])
    unfold purchases sales at hrest ⊢
    rcases h t (by simp) with htype | htype <;>
      simp [costMovement, htype, hrest] <;> ring

theorem Calculated.map_booked {l l' : List CostBasisTransaction}
    (h : List.Forall₂ Calculated l l')
    (hl : ∀ t ∈ l, t.transactionType = .buy ∨ t.transactionType = .sell) :
    l'.map (·.booked) = l.map (·.booked) := by
  induction h with
  | nil => rfl
  | @cons t t' l l' hc _ ih =>
    have hred : t.transactionType.isRedemption = false := by
      rcases hl t (by simp) with htype | htype <;> rw [htype] <;> rfl
    have hhead : t'.booked = t.booked := by
      unfold CostBasisTransaction.booked
      rw [hc.booking, hc.quantity hred]
    rw [List.map_cons, List.map_cons, hhead, ih fun u hu => hl u (by simp [hu])]

/-- **Total realized gain.** Over trades of one book that are accepted without error and leave
nothing available, the gains add up to the proceeds less the costs of the purchases, exactly and
under both methods. Every trade is among those summed. -/
theorem realized_total_exact (method : CostBasisMethod) (key : BookKey)
    (l : List CostBasisTransaction) (ht : ∀ t ∈ l, IsTrade key t)
    (haccepted : (processTransactions method [] l).errored = [])
    (hclosed : (processTransactions method [] l).books.availableQuantity key = 0) :
    let processed := (processTransactions method [] l).processed
    (processed.map (·.booked)).Perm (l.map (·.booked)) ∧
    ((sales processed).map (·.realizedGainLossLocal.getD 0)).sum =
      ((sales processed).map netProceedsLocal).sum -
        ((purchases processed).map (·.netCostLocal.getD 0)).sum ∧
    ((sales processed).map (·.realizedGainLoss.getD 0)).sum =
      ((sales processed).map netProceedsBase).sum -
        ((purchases processed).map (·.netCost.getD 0)).sum := by
  intro processed
  have hparsed : ∀ t ∈ l, t.errorReason.getD "" = "" := fun t h => (ht t h).parsed
  obtain ⟨herrors, hresult⟩ := processTransactions_of_accepted hparsed haccepted
  have hsorted : (sortTransactions [] l).Perm l := List.perm_insertionSort _ _
  have htrades : ∀ t ∈ sortTransactions [] l, IsTrade key t := fun t h => ht t (hsorted.subset h)
  have hbooked : processed.map (·.booked) = (sortTransactions [] l).map (·.booked) :=
    Calculated.map_booked (processTransactions_calculated hparsed haccepted)
      fun t h => (htrades t h).type
  have htypes : ∀ t ∈ processed, t.transactionType = .buy ∨ t.transactionType = .sell := by
    intro t h
    obtain ⟨u, hu, heq⟩ := List.mem_map.mp (hbooked ▸ List.mem_map_of_mem h)
    rw [show t.transactionType = u.transactionType from congrArg (·.transactionType) heq.symm]
    exact (htrades u hu).type
  refine ⟨hbooked ▸ hsorted.map _, ?_⟩
  -- the costs of the book are zero before the first trade and again after the last one
  have hmoved := processSortedTimeline_moved htrades
    (CostBasisBooks.soundAt_empty method key) herrors
  have hprocessed : processed = (processSortedTimeline (.start method) (sortTransactions [] l)).2 :=
    congrArg (·.processed) hresult
  rw [hresult] at hclosed
  obtain ⟨hlocal, hbase⟩ := hmoved.sound.closed hclosed
  have hstart : ((TimelineState.start method).engine.books.totals key).costLocal = 0 ∧
      ((TimelineState.start method).engine.books.totals key).costBase = 0 := by
    cases method <;> exact ⟨rfl, rfl⟩
  rw [hmoved.costLocal_eq, hstart.1, zero_add, ← hprocessed, costMovementLocal,
    sum_costMovement _ _ _ htypes] at hlocal
  rw [hmoved.costBase_eq, hstart.2, zero_add, ← hprocessed, costMovementBase,
    sum_costMovement _ _ _ htypes] at hbase
  constructor <;> linarith

def soldInParts : List CostBasisTransaction :=
  [bookedTrade "B1" .buy 1 3 10, bookedTrade "B2" .buy 2 4 15, bookedTrade "S1" .sell 3 5 20,
    bookedTrade "S2" .sell 4 2 9]

theorem realized_total_exact_soldInParts :
    let processed := (processTransactions .avco [] soldInParts).processed
    ((sales processed).map (·.realizedGainLossLocal.getD 0)).sum =
      ((sales processed).map netProceedsLocal).sum -
        ((purchases processed).map (·.netCostLocal.getD 0)).sum :=
  (realized_total_exact .avco ("P", "I") soldInParts
    (by
      have htrade : ∀ t ∈ soldInParts, (t.transactionType = .buy ∨ t.transactionType = .sell) ∧
          t.isCash = false ∧ t.bookKey = ("P", "I") ∧ Storable t.quantity ∧
          t.errorReason.getD "" = "" := by decide +kernel
      intro t ht
      obtain ⟨htype, hcash, hkey, hq, hparsed⟩ := htrade t ht
      exact ⟨htype, hcash, hkey, hq, hparsed⟩)
    (by decide +kernel) (by decide +kernel)).2.1

/-- A purchase of less than the ledger counts leaves nothing available, and its cost stays. -/
theorem realized_total_ne_of_subquantum :
    let result := processTransactions .fifo [] [bookedTrade "B" .buy 1 (1 / 10 ^ 11) 1]
    result.errored = [] ∧ result.books.availableQuantity ("P", "I") = 0 ∧
    ((sales result.processed).map (·.realizedGainLossLocal.getD 0)).sum ≠
      ((sales result.processed).map netProceedsLocal).sum -
        ((purchases result.processed).map (·.netCostLocal.getD 0)).sum := by
  decide +kernel

end LotusCore
