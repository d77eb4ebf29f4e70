import LotusCore.CostBasis.Lots

/-!
# First-in, first-out lots

The lot book of one portfolio and instrument under FIFO, with the four operations of
`FIFOBasisStrategy`. A raising operation keeps what it wrote before.

* `FifoBook`: the open lots, oldest first, the exhausted lots, and the cached available quantity.
* `CostLot.Sound`, `FifoBook.Sound`: what holds of every lot and book built from storable values.
* `fifoAddBuyLot_sound`, `fifoRestate_sound`, `fifoTransferBasisOut_sound`: the operation keeps the
  book sound and says where the cost went.
-/

namespace LotusCore

open Exec Ledger List

/-- The lots of one book: the deque of open lots, those popped from it, the cached quantity. -/
structure FifoBook where
  openLots : List CostLot := []
  closedLots : List CostLot := []
  available : ℚ := 0
  deriving DecidableEq

/-! ## Operations -/

/-- `FIFOBasisStrategy.add_buy_lot`: the lot joins the deque before the quantity is added up. -/
def fifoAddBuyLot (t : CostBasisTransaction) : EStateM Raised FifoBook Unit := do
  match ← validatedBuyLotInputs t with
  | none => pure ()
  | some (quantity, netCost, netCostLocal) =>
    let original ← resolveSourceLotOriginalQuantity t.sourceLotOriginalQuantity
      t.sourceLotOrderQuantity quantity
    let lot ← CostLot.new t.transactionId (utcTransactionDate t) quantity
      (workingRound (netCostLocal / quantity)) (workingRound (netCost / quantity)) original
    modify fun b => { b with openLots := b.openLots ++ [lot] }
    let available ← costBasisStateLedger.add (← get).available quantity "available_quantity"
    modify fun b => { b with available }

structure DisposalTotals where
  required : ℚ
  costBase : ℚ := 0
  costLocal : ℚ := 0
  consumedQuantity : ℚ := 0
  allocations : List SourceLotDisposalAllocation := []

def takeFromFifoLot (lot : CostLot) (rest : List CostLot) (matched : ℚ) :
    EStateM Raised FifoBook OpenLotState := do
  let remaining ← costBasisStateLedger.subtract lot.remainingQuantity matched "open_quantity"
  let lot := { lot with remainingQuantity := remaining }
  modify fun b => { b with openLots := lot :: rest }
  if remaining = 0 then
    let stateAfter ← OpenLotState.closed lot.originalQuantity
    modify fun b => { b with openLots := rest, closedLots := b.closedLots ++ [lot] }
    pure stateAfter
  else lot.openState

/-- `_consume_next_fifo_lot`: take what is needed from the oldest lot and record it. -/
def consumeNextFifoLot (lot : CostLot) (rest : List CostLot) (requiredQuantity : ℚ)
    (ordinal : ℕ) : EStateM Raised FifoBook (SourceLotDisposalAllocation × ℚ) := do
  let stateBefore ← lot.openState
  let matched := min requiredQuantity lot.remainingQuantity
  let stateAfter ← takeFromFifoLot lot rest matched
  let consumedBase ← costBasisStateLedger.subtract stateBefore.costBase stateAfter.costBase
    "disposed_cost_base"
  let consumedLocal ← costBasisStateLedger.subtract stateBefore.costLocal stateAfter.costLocal
    "disposed_cost_local"
  let allocation ← SourceLotDisposalAllocation.new lot.lotId lot.transactionId
    lot.acquisitionDate ordinal matched consumedLocal consumedBase stateBefore.originalQuantity
    stateBefore.quantity
  let required ← costBasisStateLedger.subtract requiredQuantity matched
    "remaining_disposal_quantity"
  pure (allocation, required)

/-- The loop of a disposal over the deque. A lot that is not emptied leaves nothing required, so
the next round stops. -/
def consumeFifoLots : List CostLot → DisposalTotals → EStateM Raised FifoBook DisposalTotals
  | [], totals => pure totals
  | lot :: rest, totals =>
    if 0 < totals.required then do
      let (allocation, required) ← consumeNextFifoLot lot rest totals.required
        (totals.allocations.length + 1)
      let costBase ← costBasisStateLedger.add totals.costBase allocation.consumedCostBase
        "disposed_cost_base"
      let costLocal ← costBasisStateLedger.add totals.costLocal allocation.consumedCostLocal
        "disposed_cost_local"
      let consumedQuantity ← costBasisStateLedger.add totals.consumedQuantity
        allocation.consumedQuantity "consumed_quantity"
      consumeFifoLots rest
        ⟨required, costBase, costLocal, consumedQuantity, totals.allocations ++ [allocation]⟩
    else pure totals

/-- `FIFOBasisStrategy.consume_sell_quantity_with_allocations`. -/
def fifoConsume (sellQuantity : ℚ) : EStateM Raised FifoBook LotDisposalResult := do
  let b ← get
  match nonPositiveSellQuantityError sellQuantity with
  | some reason => pure (.failed reason)
  | none =>
    if b.available < sellQuantity then
      pure (.failed ("Sell quantity (" ++ decimalText sellQuantity ++
        ") exceeds available holdings (" ++ decimalText b.available ++ ")."))
    else if sellQuantity = 0 then pure .empty
    else
      let totals ← consumeFifoLots b.openLots { required := sellQuantity }
      let remaining ← costBasisStateLedger.subtract b.available totals.consumedQuantity
        "available_quantity"
      modify fun b => { b with available := remaining }
      LotDisposalResult.new totals.costBase totals.costLocal totals.consumedQuantity
        totals.allocations

/-- The restated lot: exact quantities, and unit costs that keep its open cost. -/
def restatedLot (r : LotRestatement) (lot : CostLot) : Except Raised CostLot := do
  let originalQuantity ← r.apply lot.originalQuantity "original_quantity"
  let openQuantity ← r.apply lot.remainingQuantity "open_quantity"
  let stateBefore ← lot.openState
  .ok { lot with
    originalQuantity
    remainingQuantity := openQuantity
    costPerShareLocal := workingRound (stateBefore.costLocal / openQuantity)
    costPerShareBase := workingRound (stateBefore.costBase / openQuantity) }

def restatedLots (r : LotRestatement) (lots : List CostLot) : Except Raised (List CostLot) :=
  lots.mapM (restatedLot r)

/-- `FIFOBasisStrategy.restate_lot_quantities`: every lot is restated before one is written. -/
def fifoRestate (signedQuantityDelta : ℚ) : EStateM Raised FifoBook LotRestatement := do
  let b ← get
  let restatement ← LotRestatement.fromSignedDelta b.available signedQuantityDelta
  let lots ← restatedLots restatement b.openLots
  modify fun b => { b with openLots := lots, available := restatement.quantityAfter }
  pure restatement

def ambientSum (values : List ℚ) : ℚ := values.foldl (fun a b => ambientContext.round (a + b)) 0

def assignFifoLotCosts (lot : CostLot) (costBase costLocal : ℚ) : CostLot :=
  { lot with
    costPerShareBase := workingRound (costBase / lot.remainingQuantity)
    costPerShareLocal := workingRound (costLocal / lot.remainingQuantity) }

structure BasisTransferTotals where
  totalBase : ℚ
  totalLocal : ℚ
  remainingBase : ℚ
  remainingLocal : ℚ

/-- The loop of `_allocate_fifo_basis_transfer`: the lots in `done` hold their new costs; the last
lot takes what is left. -/
def allocateFifoBasisTransfer (totals : BasisTransferTotals) :
    List CostLot → List CostLot → ℚ → ℚ → EStateM Raised FifoBook Unit
  | _, [], _, _ => pure ()
  | done, [lot], allocatedBase, allocatedLocal => do
    let costBase ← costBasisStateLedger.subtract totals.remainingBase allocatedBase
      "open_cost_base"
    let costLocal ← costBasisStateLedger.subtract totals.remainingLocal allocatedLocal
      "open_cost_local"
    modify fun b => { b with openLots := done ++ [assignFifoLotCosts lot costBase costLocal] }
  | done, lot :: next :: rest, allocatedBase, allocatedLocal => do
    let state ← lot.openState
    let rawBase := workingRound
      (workingRound (state.costBase * totals.remainingBase) / totals.totalBase)
    let rawLocal := workingRound
      (workingRound (state.costLocal * totals.remainingLocal) / totals.totalLocal)
    let nextBase ← allocateNonnegativeStorageShare rawBase totals.remainingBase allocatedBase
      "open_cost_base"
    let nextLocal ← allocateNonnegativeStorageShare rawLocal totals.remainingLocal allocatedLocal
      "open_cost_local"
    let lot := assignFifoLotCosts lot nextBase nextLocal
    modify fun b => { b with openLots := done ++ lot :: next :: rest }
    let allocatedBase ← costBasisStateLedger.add allocatedBase nextBase "allocated_cost_base"
    let allocatedLocal ← costBasisStateLedger.add allocatedLocal nextLocal "allocated_cost_local"
    allocateFifoBasisTransfer totals (done ++ [lot]) (next :: rest) allocatedBase allocatedLocal

def openStates (lots : List CostLot) : Except Raised (List OpenLotState) :=
  lots.mapM CostLot.openState

/-- The states of a lot before and after a transfer. -/
def fifoMovement (p : OpenLotState × CostLot) : Except Raised SourceLotMovement := do
  let after ← p.2.openState
  .ok ⟨p.2.lotId, p.2.transactionId, p.2.acquisitionDate, p.1, after⟩

def fifoMovements (before : List OpenLotState) (lots : List CostLot) :
    Except Raised (List SourceLotMovement) :=
  (before.zip lots).mapM fifoMovement

/-- `FIFOBasisStrategy.transfer_basis_out_with_allocations`. -/
def fifoTransferBasisOut (costBase costLocal : ℚ) :
    EStateM Raised FifoBook LotBasisTransferResult := do
  let lots := (← get).openLots
  let states ← openStates lots
  let totalBase := ambientSum (states.map (·.costBase))
  let totalLocal := ambientSum (states.map (·.costLocal))
  match basisTransferAmountError costBase costLocal totalBase totalLocal with
  | some reason => pure (.failed reason)
  | none =>
    allocateFifoBasisTransfer ⟨totalBase, totalLocal, ambientContext.round (totalBase - costBase),
      ambientContext.round (totalLocal - costLocal)⟩ [] lots 0 0
    let movements ← fifoMovements states (← get).openLots
    basisTransferResult movements costLocal costBase

/-- `FIFOBasisStrategy.get_open_lot_states` for the lots of the book, in opening order. -/
def FifoBook.openLotStates (b : FifoBook) : Except Raised (List (String × OpenLotState)) :=
  (b.closedLots ++ b.openLots).mapM fun lot => do
    let state ← lot.openState
    .ok (lot.transactionId, state)

/-! ## Sound lots and books -/

/-- A lot built from storable values: an open quantity within the original one, and open costs the
ledger holds. -/
structure CostLot.Sound (lot : CostLot) : Prop where
  remaining_pos : 0 < lot.remainingQuantity
  remaining_storable : Storable lot.remainingQuantity
  remaining_le : lot.remainingQuantity ≤ lot.originalQuantity
  unitLocal_nonneg : 0 ≤ lot.costPerShareLocal
  unitBase_nonneg : 0 ≤ lot.costPerShareBase
  costLocal_storable : Storable lot.costLocal
  costBase_storable : Storable lot.costBase

variable {lot : CostLot}

theorem CostLot.Sound.costLocal_nonneg (h : lot.Sound) : 0 ≤ lot.costLocal :=
  extendedCost_nonneg h.remaining_pos.le h.unitLocal_nonneg

theorem CostLot.Sound.costBase_nonneg (h : lot.Sound) : 0 ≤ lot.costBase :=
  extendedCost_nonneg h.remaining_pos.le h.unitBase_nonneg

theorem CostLot.Sound.openState (h : lot.Sound) :
    lot.openState = .ok ⟨lot.originalQuantity, lot.remainingQuantity, lot.costLocal, lot.costBase,
      h.remaining_pos.le, h.costLocal_nonneg, h.costBase_nonneg, h.remaining_le⟩ :=
  CostLot.openState_eq_ok.mpr
    ⟨rfl, rfl, rfl, rfl, h.costLocal_storable, h.costBase_storable⟩

/-- A lot whose unit costs are derived from storable costs and a storable quantity. -/
theorem CostLot.Sound.of_unit_costs (lot : CostLot) {l b : ℚ}
    (hpos : 0 < lot.remainingQuantity) (hst : Storable lot.remainingQuantity)
    (hle : lot.remainingQuantity ≤ lot.originalQuantity)
    (hl : Storable l) (hb : Storable b) (hl0 : 0 ≤ l) (hb0 : 0 ≤ b)
    (hul : lot.costPerShareLocal = workingRound (l / lot.remainingQuantity))
    (hub : lot.costPerShareBase = workingRound (b / lot.remainingQuantity)) :
    lot.Sound ∧ lot.costLocal = l ∧ lot.costBase = b := by
  have hlc : lot.costLocal = l := by
    rw [CostLot.costLocal, hul, extendedCost_div hl hpos hst.lt_bound.le]
  have hbc : lot.costBase = b := by
    rw [CostLot.costBase, hub, extendedCost_div hb hpos hst.lt_bound.le]
  refine ⟨⟨hpos, hst, hle, ?_, ?_, hlc ▸ hl, hbc ▸ hb⟩, hlc, hbc⟩
  · rw [hul]; exact workingRound_nonneg (div_nonneg hl0 hpos.le)
  · rw [hub]; exact workingRound_nonneg (div_nonneg hb0 hpos.le)

theorem CostLot.Sound.shrink {q : ℚ} (h : lot.Sound) (hq : 0 < q)
    (hst : Storable q) (hle : q ≤ lot.remainingQuantity) :
    CostLot.Sound { lot with remainingQuantity := q } where
  remaining_pos := hq
  remaining_storable := hst
  remaining_le := hle.trans h.remaining_le
  unitLocal_nonneg := h.unitLocal_nonneg
  unitBase_nonneg := h.unitBase_nonneg
  costLocal_storable := DecimalPrecisionPolicy.Storable.of_le onGrid_extendedCost
    (extendedCost_nonneg hq.le h.unitLocal_nonneg)
    (extendedCost_mono_left hq.le hle h.unitLocal_nonneg) h.costLocal_storable
  costBase_storable := DecimalPrecisionPolicy.Storable.of_le onGrid_extendedCost
    (extendedCost_nonneg hq.le h.unitBase_nonneg)
    (extendedCost_mono_left hq.le hle h.unitBase_nonneg) h.costBase_storable

namespace FifoBook

def openQuantity (b : FifoBook) : ℚ := (b.openLots.map (·.remainingQuantity)).sum

def costLocal (b : FifoBook) : ℚ := (b.openLots.map CostLot.costLocal).sum

def costBase (b : FifoBook) : ℚ := (b.openLots.map CostLot.costBase).sum

/-- Every open lot is sound and the cached quantity is the open one. -/
structure Sound (b : FifoBook) : Prop where
  lots : ∀ lot ∈ b.openLots, lot.Sound
  available_eq : b.available = b.openQuantity
  available_storable : Storable b.available

theorem sound_empty : Sound {} :=
  ⟨by simp, rfl, storable_zero⟩

end FifoBook

/-! ## Opening a lot -/

variable {b b' : FifoBook}

theorem fifoAddBuyLot_sound {t : CostBasisTransaction} {u : Unit}
    (hb : b.Sound) (hq : Storable t.quantity) (hc : ∀ c ∈ t.netCost, Storable c)
    (hl : ∀ l ∈ t.netCostLocal, Storable l) (h : fifoAddBuyLot t b = .ok u b') :
    b'.Sound ∧ b'.openQuantity = b.openQuantity + t.quantity ∧
      b'.costLocal = b.costLocal + t.netCostLocal.getD 0 ∧
      b'.costBase = b.costBase + t.netCost.getD 0 := by
  unfold fifoAddBuyLot at h
  rw [bind_liftM_eq_ok] at h
  obtain ⟨inputs, hin, h⟩ := h
  rcases inputs with _ | ⟨q, c, l⟩
  · obtain ⟨-, rfl⟩ := pure_eq_ok.mp h
    obtain ⟨h0, h1, h2⟩ := validatedBuyLotInputs_eq_none hin
    simpa [h0, h1, h2] using hb
  · obtain ⟨rfl, hcs, hls, hpos, hc0, hl0⟩ := validatedBuyLotInputs_eq_some.mp hin
    simp only [bind_liftM_eq_ok, bind_get_eq_ok, bind_modify_eq_ok, modify_eq_ok] at h
    obtain ⟨orig, -, lot, hlot, a, ha, rfl⟩ := h
    unfold CostLot.new at hlot
    split_ifs at hlot with horig
    cases hlot
    obtain ⟨hsound, hlc, hbc⟩ := CostLot.Sound.of_unit_costs
      ⟨t.transactionId, "LOT-" ++ t.transactionId, utcTransactionDate t, orig, t.quantity,
        workingRound (l / t.quantity), workingRound (c / t.quantity)⟩
      hpos hq (not_lt.mp horig) (hl l hls) (hc c hcs) hl0 hc0 rfl rfl
    obtain ⟨rfl, has⟩ := (add_eq_ok hb.available_storable hq).mp ha
    refine ⟨⟨?_, ?_, has⟩, ?_, ?_, ?_⟩
    · intro x hx
      rcases mem_append.mp hx with hx | hx
      · exact hb.lots x hx
      · rw [mem_singleton.mp hx]; exact hsound
    · simp [FifoBook.openQuantity, hb.available_eq]
    · simp [FifoBook.openQuantity]
    · simp [FifoBook.costLocal, hlc, hls]
    · simp [FifoBook.costBase, hbc, hcs]

/-! ## Restatements -/

variable {r : LotRestatement}

theorem restatedLot_sound {lot lot' : CostLot} (hlot : lot.Sound)
    (h : restatedLot r lot = .ok lot') :
    lot'.Sound ∧
      lot'.remainingQuantity = lot.remainingQuantity * (r.quantityAfter / r.quantityBefore) ∧
      lot'.costLocal = lot.costLocal ∧ lot'.costBase = lot.costBase := by
  unfold restatedLot at h
  obtain ⟨o, ho, h⟩ := Exec.except_bind_eq_ok.mp h
  obtain ⟨q, hq, h⟩ := Exec.except_bind_eq_ok.mp h
  rw [hlot.openState] at h
  cases h
  obtain ⟨rfl, -⟩ := LotRestatement.apply_eq_ok ho
  obtain ⟨rfl, hqs⟩ := LotRestatement.apply_eq_ok hq
  have hratio : 0 < r.quantityAfter / r.quantityBefore := div_pos r.after_pos r.before_pos
  have hpos : 0 < lot.remainingQuantity * r.quantityAfter / r.quantityBefore := by
    rw [mul_div_assoc]
    exact mul_pos hlot.remaining_pos hratio
  have hle : lot.remainingQuantity * r.quantityAfter / r.quantityBefore ≤
      lot.originalQuantity * r.quantityAfter / r.quantityBefore := by
    rw [mul_div_assoc, mul_div_assoc]
    exact mul_le_mul_of_nonneg_right hlot.remaining_le hratio.le
  obtain ⟨hsound, hl, hb⟩ := CostLot.Sound.of_unit_costs
    { lot with
      originalQuantity := lot.originalQuantity * r.quantityAfter / r.quantityBefore
      remainingQuantity := lot.remainingQuantity * r.quantityAfter / r.quantityBefore
      costPerShareLocal := workingRound
        (lot.costLocal / (lot.remainingQuantity * r.quantityAfter / r.quantityBefore))
      costPerShareBase := workingRound
        (lot.costBase / (lot.remainingQuantity * r.quantityAfter / r.quantityBefore)) }
    hpos hqs hle hlot.costLocal_storable hlot.costBase_storable hlot.costLocal_nonneg
    hlot.costBase_nonneg rfl rfl
  exact ⟨hsound, mul_div_assoc _ _ _, hl, hb⟩

theorem restatedLots_sound {lots lots' : List CostLot} (hlots : ∀ lot ∈ lots, lot.Sound)
    (h : List.Forall₂ (fun a b => restatedLot r a = .ok b) lots lots') :
    (∀ lot ∈ lots', lot.Sound) ∧
      (lots'.map (·.remainingQuantity)).sum =
        (lots.map (·.remainingQuantity)).sum * (r.quantityAfter / r.quantityBefore) ∧
      lots'.map CostLot.costLocal = lots.map CostLot.costLocal ∧
      lots'.map CostLot.costBase = lots.map CostLot.costBase := by
  induction h with
  | nil => simp
  | cons hab _ ih =>
    obtain ⟨hs, hq, hl, hb⟩ := restatedLot_sound (hlots _ (by simp)) hab
    obtain ⟨ihs, ihq, ihl, ihb⟩ := ih fun x hx => hlots x (by simp [hx])
    refine ⟨?_, ?_, ?_, ?_⟩
    · intro x hx
      rcases mem_cons.mp hx with rfl | hx
      · exact hs
      · exact ihs x hx
    · simp only [map_cons, sum_cons, ihq, hq]; ring
    · simp only [map_cons, ihl, hl]
    · simp only [map_cons, ihb, hb]

theorem LotRestatement.fromSignedDelta_eq_ok {q d : ℚ}
    (h : fromSignedDelta q d = .ok r) : r.quantityBefore = q := by
  unfold fromSignedDelta new at h
  split at h
  · cases h
  · split at h
    · cases h
    · split_ifs at h
      cases h
      rfl

theorem fifoRestate_sound {d : ℚ} (hb : b.Sound) (h : fifoRestate d b = .ok r b') :
    b'.Sound ∧ b'.openQuantity = r.quantityAfter ∧ b'.costLocal = b.costLocal ∧
      b'.costBase = b.costBase := by
  unfold fifoRestate at h
  simp only [bind_get_eq_ok, bind_liftM_eq_ok, bind_modify_eq_ok, pure_eq_ok] at h
  obtain ⟨r', hr, lots, hlots, rfl, rfl⟩ := h
  obtain ⟨hs, hq, hl, hc⟩ := restatedLots_sound hb.lots (except_mapM_eq_ok.mp hlots)
  have hbefore : r.quantityBefore = b.openQuantity := by
    rw [LotRestatement.fromSignedDelta_eq_ok hr, hb.available_eq]
  have hsum : (lots.map (·.remainingQuantity)).sum = r.quantityAfter := by
    rw [hq]
    show b.openQuantity * (r.quantityAfter / r.quantityBefore) = r.quantityAfter
    rw [← hbefore]
    field_simp [r.before_pos.ne']
  refine ⟨⟨hs, hsum.symm, r.after_storable⟩, hsum, ?_, ?_⟩
  · simp only [FifoBook.costLocal, hl]
  · simp only [FifoBook.costBase, hc]

/-! ## Basis transfers -/

/-- `lot'` is `lot` with its open costs reassigned to storable values. -/
def CostLot.Reassigned (lot lot' : CostLot) : Prop :=
  ∃ costBase costLocal, Storable costBase ∧ Storable costLocal ∧
    lot' = assignFifoLotCosts lot costBase costLocal

theorem allocateFifoBasisTransfer_eq_ok {totals : BasisTransferTotals}
    {done lots : List CostLot} {ab al : ℚ} {u : Unit}
    (hopen : b.openLots = done ++ lots)
    (h : allocateFifoBasisTransfer totals done lots ab al b = .ok u b') :
    b'.available = b.available ∧
      ∃ lots', b'.openLots = done ++ lots' ∧ List.Forall₂ CostLot.Reassigned lots lots' := by
  induction lots generalizing done ab al b with
  | nil =>
    unfold allocateFifoBasisTransfer at h
    obtain ⟨-, rfl⟩ := pure_eq_ok.mp h
    exact ⟨rfl, [], hopen, .nil⟩
  | cons lot rest ih =>
    cases rest with
    | nil =>
      unfold allocateFifoBasisTransfer at h
      simp only [bind_liftM_eq_ok, modify_eq_ok] at h
      obtain ⟨cb, hcb, cl, hcl, rfl⟩ := h
      exact ⟨rfl, _, rfl, .cons ⟨cb, cl, storable_of_subtract hcb,
        storable_of_subtract hcl, rfl⟩ .nil⟩
    | cons next rest =>
      unfold allocateFifoBasisTransfer at h
      simp only [bind_liftM_eq_ok, bind_modify_eq_ok] at h
      obtain ⟨s, -, nb, hnb, nl, hnl, ab', -, al', -, h⟩ := h
      obtain ⟨hav, lots', hlots', hre⟩ := ih (by simp) h
      refine ⟨hav, _, by rw [hlots', append_assoc]; rfl, .cons ?_ hre⟩
      exact ⟨nb, nl, (allocateNonnegativeStorageShare_eq_ok hnb).2,
        (allocateNonnegativeStorageShare_eq_ok hnl).2, rfl⟩

theorem CostLot.Reassigned.sound {lot lot' : CostLot} (hlot : lot.Sound)
    (hre : lot.Reassigned lot') {s : OpenLotState} (hs : lot'.openState = .ok s) :
    lot'.Sound ∧ lot'.remainingQuantity = lot.remainingQuantity := by
  obtain ⟨cb, cl, hcb, hcl, rfl⟩ := hre
  have hl : (assignFifoLotCosts lot cb cl).costLocal = cl :=
    extendedCost_div hcl hlot.remaining_pos hlot.remaining_storable.lt_bound.le
  have hb : (assignFifoLotCosts lot cb cl).costBase = cb :=
    extendedCost_div hcb hlot.remaining_pos hlot.remaining_storable.lt_bound.le
  obtain ⟨-, -, h3, h4, -, -⟩ := CostLot.openState_eq_ok.mp hs
  have hl0 : 0 ≤ cl := by rw [← hl, ← h3]; exact s.costLocal_nonneg
  have hb0 : 0 ≤ cb := by rw [← hb, ← h4]; exact s.costBase_nonneg
  exact ⟨(CostLot.Sound.of_unit_costs (assignFifoLotCosts lot cb cl) hlot.remaining_pos
    hlot.remaining_storable hlot.remaining_le hcl hcb hl0 hb0 rfl rfl).1, rfl⟩

theorem fifoMovements_sound {lots lots' : List CostLot} {states : List OpenLotState}
    {ms : List SourceLotMovement} (hlots : ∀ lot ∈ lots, lot.Sound)
    (hstates : List.Forall₂ (fun a s => CostLot.openState a = .ok s) lots states)
    (hre : List.Forall₂ CostLot.Reassigned lots lots')
    (h : fifoMovements states lots' = .ok ms) :
    (∀ lot ∈ lots', lot.Sound) ∧
      (lots'.map (·.remainingQuantity)).sum = (lots.map (·.remainingQuantity)).sum ∧
      (∀ m ∈ ms, Storable m.before.costLocal ∧ Storable m.after.costLocal ∧
        Storable m.before.costBase ∧ Storable m.after.costBase) ∧
      (lots'.map CostLot.costLocal).sum + (ms.map fun m => m.before.costLocal -
        m.after.costLocal).sum = (lots.map CostLot.costLocal).sum ∧
      (lots'.map CostLot.costBase).sum + (ms.map fun m => m.before.costBase -
        m.after.costBase).sum = (lots.map CostLot.costBase).sum := by
  induction hre generalizing states ms with
  | nil =>
    cases hstates
    have := except_mapM_eq_ok.mp h
    cases this
    simp
  | @cons lot lot' lots lots' hre _ ih =>
    cases hstates with
    | @cons _ s _ states hs hstates =>
      have hmap := except_mapM_eq_ok.mp h
      cases hmap with
      | @cons _ m _ ms hm hms =>
        obtain ⟨s', hs', hm⟩ := Exec.except_bind_eq_ok.mp hm
        cases hm
        obtain ⟨hsound, hq⟩ := hre.sound (hlots lot (by simp)) hs'
        obtain ⟨-, -, hl, hb, hls, hbs⟩ := CostLot.openState_eq_ok.mp hs
        obtain ⟨-, -, hl', hb', hls', hbs'⟩ := CostLot.openState_eq_ok.mp hs'
        obtain ⟨ih1, ih2, ih3, ih4, ih5⟩ :=
          ih (fun x hx => hlots x (by simp [hx])) hstates (except_mapM_eq_ok.mpr hms)
        refine ⟨?_, ?_, ?_, ?_, ?_⟩
        · intro x hx
          rcases mem_cons.mp hx with rfl | hx
          · exact hsound
          · exact ih1 x hx
        · simp only [map_cons, sum_cons, ih2, hq]
        · intro x hx
          rcases mem_cons.mp hx with rfl | hx
          · exact ⟨hl ▸ hls, hl' ▸ hls', hb ▸ hbs, hb' ▸ hbs'⟩
          · exact ih3 x hx
        · simp only [map_cons, sum_cons, ← ih4, hl, hl']; ring
        · simp only [map_cons, sum_cons, ← ih5, hb, hb']; ring

theorem fifoTransferBasisOut_sound {cb cl : ℚ} {r : LotBasisTransferResult}
    (hb : b.Sound) (h : fifoTransferBasisOut cb cl b = .ok r b') :
    b'.Sound ∧ b'.openQuantity = b.openQuantity ∧
      b'.costLocal + r.transferredCostLocal = b.costLocal ∧
      b'.costBase + r.transferredCostBase = b.costBase := by
  unfold fifoTransferBasisOut at h
  simp only [bind_get_eq_ok, bind_liftM_eq_ok] at h
  obtain ⟨states, hstates, h⟩ := h
  rcases herr : basisTransferAmountError cb cl (ambientSum (states.map (·.costBase)))
    (ambientSum (states.map (·.costLocal))) with _ | reason
  · simp only [herr, bind_eq_ok] at h
    obtain ⟨_, b₁, halloc, h⟩ := h
    obtain ⟨_, _, hget, ms, _, hms, h⟩ := h
    obtain ⟨rfl, rfl⟩ := get_eq_ok.mp hget
    obtain ⟨hms, rfl⟩ := liftM_eq_ok.mp hms
    obtain ⟨hr, rfl⟩ := liftM_eq_ok.mp h
    obtain ⟨hav, lots', hlots', hre⟩ :=
      allocateFifoBasisTransfer_eq_ok (nil_append _).symm halloc
    rw [nil_append] at hlots'
    rw [hlots'] at hms
    obtain ⟨hs, hq, hst, hl, hc⟩ :=
      fifoMovements_sound hb.lots (except_mapM_eq_ok.mp hstates) hre hms
    obtain ⟨rl, rb, -, hml, hmb⟩ := basisTransferResult_conserves hst hr
    have hq' : b'.openQuantity = b.openQuantity := by
      simp only [FifoBook.openQuantity, hlots', hq]
    refine ⟨⟨by rw [hlots']; exact hs, ?_, hav ▸ hb.available_storable⟩, hq', ?_, ?_⟩
    · rw [hav, hq', hb.available_eq]
    · rw [rl, ← hml]
      simp only [FifoBook.costLocal, hlots', hl]
    · rw [rb, ← hmb]
      simp only [FifoBook.costBase, hlots', hc]
  · simp only [herr, pure_eq_ok] at h
    obtain ⟨rfl, rfl⟩ := h
    exact ⟨hb, rfl, add_zero _, add_zero _⟩

end LotusCore
