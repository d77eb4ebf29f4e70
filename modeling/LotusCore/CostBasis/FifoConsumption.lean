import LotusCore.CostBasis.Fifo

/-!
# FIFO disposals in closed form

The disposal loop of `FIFOBasisStrategy` writes the deque lot by lot. On a sound book it computes
two pure functions of the open lots: the lots it leaves and the totals it adds up.

* `consumedLots`: the exhausted lots and the lots left open by a quantity.
* `disposalTotals`: the totals of the loop.
* **`fifoConsume_eq_ok`**: a completed disposal of a sound book, by these functions.
* `fifoConsume_cases`: what a disposal does to any book.
* `fifoConsume_sound`: a disposal keeps the book sound and says where the cost went.
-/

namespace LotusCore

open Exec Ledger List

def CostLot.shrunk (lot : CostLot) (quantity : ℚ) : CostLot :=
  { lot with remainingQuantity := quantity }

/-- The lots a quantity exhausts, oldest first, and the lots it leaves open. -/
def consumedLots : List CostLot → ℚ → List CostLot × List CostLot
  | [], _ => ([], [])
  | lot :: rest, quantity =>
    if quantity ≤ 0 then ([], lot :: rest)
    else if lot.remainingQuantity ≤ quantity then
      let after := consumedLots rest (quantity - lot.remainingQuantity)
      (lot.shrunk 0 :: after.1, after.2)
    else ([], lot.shrunk (lot.remainingQuantity - quantity) :: rest)

/-- The evidence of taking `matched` off a lot. -/
def lotAllocation (lot : CostLot) (matched : ℚ) (ordinal : ℕ) :
    Except Raised SourceLotDisposalAllocation :=
  let left := lot.shrunk (lot.remainingQuantity - matched)
  SourceLotDisposalAllocation.new lot.lotId lot.transactionId lot.acquisitionDate ordinal matched
    (lot.costLocal - left.costLocal) (lot.costBase - left.costBase) lot.originalQuantity
    lot.remainingQuantity

def DisposalTotals.add (totals : DisposalTotals) (a : SourceLotDisposalAllocation) :
    Except Raised DisposalTotals := do
  let costBase ← costBasisStateLedger.add totals.costBase a.consumedCostBase "disposed_cost_base"
  let costLocal ← costBasisStateLedger.add totals.costLocal a.consumedCostLocal
    "disposed_cost_local"
  let consumedQuantity ← costBasisStateLedger.add totals.consumedQuantity a.consumedQuantity
    "consumed_quantity"
  .ok ⟨totals.required - a.consumedQuantity, costBase, costLocal, consumedQuantity,
    totals.allocations ++ [a]⟩

def disposalTotals : List CostLot → DisposalTotals → Except Raised DisposalTotals
  | [], totals => .ok totals
  | lot :: rest, totals =>
    if 0 < totals.required then do
      let a ← lotAllocation lot (min totals.required lot.remainingQuantity)
        (totals.allocations.length + 1)
      let totals ← totals.add a
      disposalTotals rest totals
    else .ok totals

variable {lots : List CostLot} {q : ℚ}

theorem consumedLots_of_nonpos (h : q ≤ 0) : consumedLots lots q = ([], lots) := by
  cases lots with
  | nil => rfl
  | cons lot rest => simp [consumedLots, h]

variable {totals : DisposalTotals}

theorem disposalTotals_of_nonpos
    (h : ¬ 0 < totals.required) : disposalTotals lots totals = .ok totals := by
  cases lots with
  | nil => rfl
  | cons lot rest => simp [disposalTotals, h]

/-! ## One lot -/

section OneLot

variable {lot : CostLot} {rest : List CostLot} {b b' : FifoBook} {required r m : ℚ} {n : ℕ}
  {a : SourceLotDisposalAllocation}

/-- The book after the oldest lot gave up a part of its quantity. -/
def FifoBook.reduced (b : FifoBook) (lot : CostLot) (rest : List CostLot) (m : ℚ) : FifoBook :=
  if lot.remainingQuantity - m = 0 then
    { b with openLots := rest, closedLots := b.closedLots ++ [lot.shrunk 0] }
  else { b with openLots := lot.shrunk (lot.remainingQuantity - m) :: rest }

theorem takeFromFifoLot_eq_ok (hlot : lot.Sound) (hm : Storable m) (hpos : 0 < m)
    (hle : m ≤ lot.remainingQuantity) {s : OpenLotState} :
    takeFromFifoLot lot rest m b = .ok s b' ↔
      (s.originalQuantity = lot.originalQuantity ∧ s.quantity = lot.remainingQuantity - m ∧
        s.costLocal = (lot.shrunk (lot.remainingQuantity - m)).costLocal ∧
        s.costBase = (lot.shrunk (lot.remainingQuantity - m)).costBase) ∧
      b' = b.reduced lot rest m := by
  unfold takeFromFifoLot FifoBook.reduced
  rw [bind_liftM_eq_ok]
  have hsub : costBasisStateLedger.subtract lot.remainingQuantity m "open_quantity" =
      .ok (lot.remainingQuantity - m) :=
    subtract_of_nonneg hlot.remaining_storable hm hlot.remaining_pos.le hpos.le
  simp only [hsub, Except.ok.injEq, exists_eq_left']
  rw [bind_modify_eq_ok]
  by_cases hzero : lot.remainingQuantity - m = 0
  · rw [if_pos hzero, if_pos hzero, hzero]
    simp only [bind_liftM_eq_ok, bind_modify_eq_ok, pure_eq_ok]
    have hclosed : ∀ s : OpenLotState, OpenLotState.closed lot.originalQuantity = .ok s ↔
        s.originalQuantity = lot.originalQuantity ∧ s.quantity = 0 ∧
          s.costLocal = (lot.shrunk 0).costLocal ∧ s.costBase = (lot.shrunk 0).costBase := by
      intro s
      simp only [CostLot.costLocal, CostLot.costBase, CostLot.shrunk,
        extendedCost_zero_left]
      exact OpenLotState.new_eq_ok
    constructor
    · rintro ⟨s', hs', rfl, rfl⟩
      exact ⟨(hclosed s).mp hs', rfl⟩
    · rintro ⟨hs, rfl⟩
      exact ⟨s, (hclosed s).mpr hs, rfl, rfl⟩
  · rw [if_neg hzero, if_neg hzero, liftM_eq_ok]
    have hlt : m < lot.remainingQuantity :=
      lt_of_le_of_ne hle fun h => hzero (by rw [h, sub_self])
    have hshrunk := hlot.shrink (sub_pos.mpr hlt)
      (hlot.remaining_storable.sub hm hlot.remaining_pos.le hpos.le) (by linarith)
    rw [CostLot.openState_eq_ok]
    constructor
    · rintro ⟨⟨h1, h2, h3, h4, -, -⟩, rfl⟩
      exact ⟨⟨h1, h2, h3, h4⟩, rfl⟩
    · rintro ⟨⟨h1, h2, h3, h4⟩, rfl⟩
      exact ⟨⟨h1, h2, h3, h4, hshrunk.costLocal_storable, hshrunk.costBase_storable⟩, rfl⟩

theorem CostLot.Sound.costs_shrunk {q : ℚ} (hlot : lot.Sound) (h0 : 0 ≤ q)
    (hle : q ≤ lot.remainingQuantity) :
    (0 ≤ (lot.shrunk q).costLocal ∧ (lot.shrunk q).costLocal ≤ lot.costLocal ∧
      Storable (lot.shrunk q).costLocal) ∧
    (0 ≤ (lot.shrunk q).costBase ∧ (lot.shrunk q).costBase ≤ lot.costBase ∧
      Storable (lot.shrunk q).costBase) := by
  have hl := extendedCost_nonneg h0 hlot.unitLocal_nonneg
  have hb := extendedCost_nonneg h0 hlot.unitBase_nonneg
  have hl' := extendedCost_mono_left h0 hle hlot.unitLocal_nonneg
  have hb' := extendedCost_mono_left h0 hle hlot.unitBase_nonneg
  exact ⟨⟨hl, hl', .of_le onGrid_extendedCost hl hl' hlot.costLocal_storable⟩,
    hb, hb', .of_le onGrid_extendedCost hb hb' hlot.costBase_storable⟩

theorem consumeNextFifoLot_eq_ok (hlot : lot.Sound) (hreq : Storable required)
    (hpos : 0 < required) :
    consumeNextFifoLot lot rest required n b = .ok (a, r) b' ↔
      lotAllocation lot (min required lot.remainingQuantity) n = .ok a ∧
        r = required - min required lot.remainingQuantity ∧
        b' = b.reduced lot rest (min required lot.remainingQuantity) := by
  have hms : Storable (min required lot.remainingQuantity) := hreq.min hlot.remaining_storable
  have hmpos : 0 < min required lot.remainingQuantity := lt_min hpos hlot.remaining_pos
  have hmle : min required lot.remainingQuantity ≤ lot.remainingQuantity := min_le_right _ _
  obtain ⟨⟨hl0, -, hls⟩, hb0, -, hbs⟩ := hlot.costs_shrunk (sub_nonneg.mpr hmle)
    (by linarith : lot.remainingQuantity - min required lot.remainingQuantity ≤ _)
  have hr : costBasisStateLedger.subtract required (min required lot.remainingQuantity)
      "remaining_disposal_quantity" = .ok (required - min required lot.remainingQuantity) :=
    subtract_of_nonneg hreq hms hpos.le hmpos.le
  have hcb : costBasisStateLedger.subtract lot.costBase
      (lot.shrunk (lot.remainingQuantity - min required lot.remainingQuantity)).costBase
      "disposed_cost_base" = .ok _ :=
    subtract_of_nonneg hlot.costBase_storable hbs hlot.costBase_nonneg hb0
  have hcl : costBasisStateLedger.subtract lot.costLocal
      (lot.shrunk (lot.remainingQuantity - min required lot.remainingQuantity)).costLocal
      "disposed_cost_local" = .ok _ :=
    subtract_of_nonneg hlot.costLocal_storable hls hlot.costLocal_nonneg hl0
  unfold consumeNextFifoLot lotAllocation
  rw [hlot.openState, bind_liftM_eq_ok]
  simp only [Except.ok.injEq, exists_eq_left', bind_eq_ok (x := takeFromFifoLot _ _ _),
    takeFromFifoLot_eq_ok hlot hms hmpos hmle]
  constructor
  · rintro ⟨after, b₁, ⟨⟨-, -, h3, h4⟩, rfl⟩, h⟩
    simp only [h3, h4, hcb, hcl, hr, bind_liftM_eq_ok, Except.ok.injEq, exists_eq_left',
      pure_eq_ok, Prod.mk.injEq] at h
    obtain ⟨a', ha', ⟨rfl, rfl⟩, rfl⟩ := h
    exact ⟨ha', rfl, rfl⟩
  · rintro ⟨ha, rfl, rfl⟩
    have hq : 0 ≤ lot.remainingQuantity - min required lot.remainingQuantity :=
      sub_nonneg.mpr hmle
    refine ⟨⟨lot.originalQuantity, _, _, _, hq, hl0, hb0, by linarith [hlot.remaining_le]⟩, _,
      ⟨⟨rfl, rfl, rfl, rfl⟩, rfl⟩, ?_⟩
    simp only [hcb, hcl, hr, bind_liftM_eq_ok, Except.ok.injEq, exists_eq_left', pure_eq_ok,
      Prod.mk.injEq]
    exact ⟨a, ha, by simp⟩

theorem lotAllocation_consumed (h : lotAllocation lot m n = .ok a) :
    a.consumedQuantity = m ∧
      a.consumedCostLocal = lot.costLocal -
        (lot.shrunk (lot.remainingQuantity - m)).costLocal ∧
      a.consumedCostBase = lot.costBase - (lot.shrunk (lot.remainingQuantity - m)).costBase := by
  obtain ⟨-, -, -, hq, hl, hb⟩ := SourceLotDisposalAllocation.new_eq_ok h
  exact ⟨hq, hl, hb⟩

end OneLot

/-! ## The loop -/

theorem consumeFifoLots_of_nonpos
    (h : ¬ 0 < totals.required) : consumeFifoLots lots totals = pure totals := by
  cases lots with
  | nil => rfl
  | cons lot rest => rw [consumeFifoLots, if_neg h]

variable {totals' : DisposalTotals}

theorem disposalTotals_add_eq_ok {a : SourceLotDisposalAllocation} :
    totals.add a = .ok totals' ↔ ∃ costBase costLocal quantity,
      costBasisStateLedger.add totals.costBase a.consumedCostBase "disposed_cost_base" =
        .ok costBase ∧
      costBasisStateLedger.add totals.costLocal a.consumedCostLocal "disposed_cost_local" =
        .ok costLocal ∧
      costBasisStateLedger.add totals.consumedQuantity a.consumedQuantity "consumed_quantity" =
        .ok quantity ∧
      totals' = ⟨totals.required - a.consumedQuantity, costBase, costLocal, quantity,
        totals.allocations ++ [a]⟩ := by
  simp only [DisposalTotals.add, except_bind_eq_ok, Except.ok.injEq]
  constructor
  · rintro ⟨c, hc, l, hl, q, hq, rfl⟩; exact ⟨c, l, q, hc, hl, hq, rfl⟩
  · rintro ⟨c, l, q, hc, hl, hq, rfl⟩; exact ⟨c, hc, l, hl, q, hq, rfl⟩

/-- **The loop in closed form.** On sound lots the disposal loop computes `disposalTotals` and
leaves the lots of `consumedLots`. -/
theorem consumeFifoLots_eq_ok {b b' : FifoBook} (hopen : b.openLots = lots)
    (hlots : ∀ lot ∈ lots, lot.Sound) (hreq : Storable totals.required) :
    consumeFifoLots lots totals b = .ok totals' b' ↔
      disposalTotals lots totals = .ok totals' ∧
        b' = { b with
          openLots := (consumedLots lots totals.required).2
          closedLots := b.closedLots ++ (consumedLots lots totals.required).1 } := by
  induction lots generalizing totals b with
  | nil =>
    have hb : b = { b with openLots := [], closedLots := b.closedLots ++ [] } := by
      rw [append_nil, ← hopen]
    simp only [consumeFifoLots, disposalTotals, consumedLots, pure_eq_ok, Except.ok.injEq, ← hb]
    exact and_congr_left' eq_comm
  | cons lot rest ih =>
    by_cases hpos : 0 < totals.required
    · have hlot := hlots lot (by simp)
      have hms : Storable (min totals.required lot.remainingQuantity) :=
        hreq.min hlot.remaining_storable
      -- the lot is exhausted and the loop goes on, or it covers the rest and the loop stops
      have htail : ∀ totals₁ : DisposalTotals,
          totals₁.required = totals.required - min totals.required lot.remainingQuantity →
          (consumeFifoLots rest totals₁
              (b.reduced lot rest (min totals.required lot.remainingQuantity)) = .ok totals' b' ↔
            disposalTotals rest totals₁ = .ok totals' ∧
              b' = { b with
                openLots := (consumedLots (lot :: rest) totals.required).2
                closedLots := b.closedLots ++
                  (consumedLots (lot :: rest) totals.required).1 }) := by
        intro totals₁ hr₁
        rw [consumedLots, if_neg (not_le.mpr hpos)]
        by_cases hle : lot.remainingQuantity ≤ totals.required
        · rw [min_eq_right hle] at hr₁ ⊢
          have hred : b.reduced lot rest lot.remainingQuantity = { b with
              openLots := rest, closedLots := b.closedLots ++ [lot.shrunk 0] } := by
            rw [FifoBook.reduced, if_pos (sub_self _)]
          have hreq₁ : Storable totals₁.required := by
            rw [hr₁]
            exact hreq.sub hlot.remaining_storable hpos.le hlot.remaining_pos.le
          rw [hred, ih rfl (fun x hx => hlots x (by simp [hx])) hreq₁, if_pos hle, hr₁]
          simp only [append_assoc, singleton_append]
        · rw [not_le] at hle
          rw [min_eq_left hle.le] at hr₁ ⊢
          have hred : b.reduced lot rest totals.required = { b with
              openLots := lot.shrunk (lot.remainingQuantity - totals.required) :: rest } := by
            rw [FifoBook.reduced, if_neg (sub_ne_zero.mpr hle.ne')]
          have hstop : ¬ 0 < totals₁.required := by rw [hr₁, sub_self]; exact lt_irrefl 0
          rw [hred, consumeFifoLots_of_nonpos hstop, disposalTotals_of_nonpos hstop,
            if_neg (not_le.mpr hle), pure_eq_ok, Except.ok.injEq, append_nil]
          exact and_congr_left' eq_comm
      rw [consumeFifoLots, if_pos hpos, disposalTotals, if_pos hpos]
      constructor
      · intro h
        obtain ⟨⟨a, r⟩, b₁, hnext, h⟩ := bind_eq_ok.mp h
        obtain ⟨ha, rfl, rfl⟩ := (consumeNextFifoLot_eq_ok hlot hreq hpos).mp hnext
        simp only [bind_liftM_eq_ok] at h
        obtain ⟨cb, hcb, cl, hcl, q, hq, h⟩ := h
        obtain ⟨hd, hb'⟩ := (htail _ rfl).mp h
        refine ⟨except_bind_eq_ok.mpr ⟨a, ha, except_bind_eq_ok.mpr ⟨_,
          disposalTotals_add_eq_ok.mpr ⟨cb, cl, q, hcb, hcl, hq, rfl⟩, ?_⟩⟩, hb'⟩
        rw [(lotAllocation_consumed ha).1]
        exact hd
      · rintro ⟨h, hb'⟩
        obtain ⟨a, ha, h⟩ := except_bind_eq_ok.mp h
        obtain ⟨totals₁, hadd, h⟩ := except_bind_eq_ok.mp h
        obtain ⟨cb, cl, q, hcb, hcl, hq, rfl⟩ := disposalTotals_add_eq_ok.mp hadd
        rw [(lotAllocation_consumed ha).1] at h
        refine bind_eq_ok.mpr ⟨_, _, (consumeNextFifoLot_eq_ok hlot hreq hpos).mpr
          ⟨ha, rfl, rfl⟩, ?_⟩
        simp only [bind_liftM_eq_ok]
        exact ⟨cb, hcb, cl, hcl, q, hq, (htail _ rfl).mpr ⟨h, hb'⟩⟩
    · have hb : b = { b with openLots := lot :: rest, closedLots := b.closedLots ++ [] } := by
        rw [append_nil, ← hopen]
      rw [consumeFifoLots_of_nonpos hpos, disposalTotals_of_nonpos hpos,
        consumedLots_of_nonpos (not_lt.mp hpos), ← hb, pure_eq_ok, Except.ok.injEq]
      exact and_congr_left' eq_comm

/-- `left` is what remains of `lots` when a quantity and its costs are taken off. -/
structure Takes (lots left : List CostLot) (quantity costLocal costBase : ℚ) : Prop where
  sound : ∀ lot ∈ left, lot.Sound
  quantity_eq : (left.map (·.remainingQuantity)).sum + quantity =
    (lots.map (·.remainingQuantity)).sum
  costLocal_eq : (left.map CostLot.costLocal).sum + costLocal = (lots.map CostLot.costLocal).sum
  costBase_eq : (left.map CostLot.costBase).sum + costBase = (lots.map CostLot.costBase).sum

/-- What the loop knows about its totals: the ledger holds them, and nothing negative is
required. -/
structure DisposalTotals.Sound (totals : DisposalTotals) : Prop where
  required_storable : Storable totals.required
  required_nonneg : 0 ≤ totals.required
  quantity_storable : Storable totals.consumedQuantity
  costLocal_storable : Storable totals.costLocal
  costBase_storable : Storable totals.costBase

theorem disposalTotals_add_sound {lot : CostLot} {n : ℕ} {a : SourceLotDisposalAllocation}
    (hlot : lot.Sound) (hs : totals.Sound)
    (ha : lotAllocation lot (min totals.required lot.remainingQuantity) n = .ok a)
    (h : totals.add a = .ok totals') :
    totals'.Sound ∧ totals'.required = totals.required - a.consumedQuantity ∧
      totals'.consumedQuantity = totals.consumedQuantity + a.consumedQuantity ∧
      totals'.costLocal = totals.costLocal + a.consumedCostLocal ∧
      totals'.costBase = totals.costBase + a.consumedCostBase := by
  obtain ⟨cb, cl, q, hcb, hcl, hq, rfl⟩ := disposalTotals_add_eq_ok.mp h
  obtain ⟨hqa, hla, hba⟩ := lotAllocation_consumed ha
  have hmle : min totals.required lot.remainingQuantity ≤ lot.remainingQuantity := min_le_right _ _
  have hm0 : 0 ≤ min totals.required lot.remainingQuantity :=
    le_min hs.required_nonneg hlot.remaining_pos.le
  have hms : Storable (min totals.required lot.remainingQuantity) :=
    hs.required_storable.min hlot.remaining_storable
  obtain ⟨⟨hl0, -, hls⟩, hb0, -, hbs⟩ := hlot.costs_shrunk (sub_nonneg.mpr hmle)
    (sub_le_self _ hm0)
  obtain ⟨rfl, hqs⟩ := (add_eq_ok hs.quantity_storable (hqa ▸ hms)).mp hq
  obtain ⟨rfl, hcls⟩ := (add_eq_ok hs.costLocal_storable
    (hla ▸ hlot.costLocal_storable.sub hls hlot.costLocal_nonneg hl0)).mp hcl
  obtain ⟨rfl, hcbs⟩ := (add_eq_ok hs.costBase_storable
    (hba ▸ hlot.costBase_storable.sub hbs hlot.costBase_nonneg hb0)).mp hcb
  refine ⟨⟨?_, ?_, hqs, hcls, hcbs⟩, rfl, rfl, rfl, rfl⟩
  · rw [hqa]
    exact hs.required_storable.sub hms hs.required_nonneg hm0
  · rw [hqa]
    exact sub_nonneg.mpr (min_le_left _ _)

/-- **The disposal loop.** What the loop adds to its totals is what it takes off the lots, and it
stops with nothing required or no lot left. -/
theorem disposalTotals_takes (hlots : ∀ lot ∈ lots, lot.Sound) (hs : totals.Sound)
    (h : disposalTotals lots totals = .ok totals') :
    Takes lots (consumedLots lots totals.required).2
        (totals'.consumedQuantity - totals.consumedQuantity)
        (totals'.costLocal - totals.costLocal) (totals'.costBase - totals.costBase) ∧
      totals'.Sound ∧
      totals'.required + totals'.consumedQuantity = totals.required + totals.consumedQuantity ∧
      (totals'.required = 0 ∨ (consumedLots lots totals.required).2 = []) := by
  induction lots generalizing totals with
  | nil =>
    cases h
    exact ⟨⟨by simp [consumedLots], by simp [consumedLots], by simp [consumedLots],
      by simp [consumedLots]⟩, hs, rfl, .inr rfl⟩
  | cons lot rest ih =>
    obtain ⟨hlot, hrest⟩ := forall_mem_cons.mp hlots
    rw [disposalTotals] at h
    split_ifs at h with hpos
    · obtain ⟨a, ha, h⟩ := except_bind_eq_ok.mp h
      obtain ⟨totals₁, hadd, h⟩ := except_bind_eq_ok.mp h
      obtain ⟨hs₁, hreq, hq, hl, hb⟩ := disposalTotals_add_sound hlot hs ha hadd
      obtain ⟨hqa, hla, hba⟩ := lotAllocation_consumed ha
      rw [consumedLots, if_neg (not_le.mpr hpos)]
      rw [hqa] at hreq hq
      rw [hla] at hl
      rw [hba] at hb
      by_cases hle : lot.remainingQuantity ≤ totals.required
      · rw [min_eq_right hle, sub_self] at hl hb
        rw [min_eq_right hle] at hreq hq
        obtain ⟨htakes, hs', hsum, hend⟩ := ih hrest hs₁ h
        rw [hreq] at htakes hend hsum
        rw [if_pos hle]
        have hl0 : (lot.shrunk 0).costLocal = 0 := extendedCost_zero_left
        have hb0 : (lot.shrunk 0).costBase = 0 := extendedCost_zero_left
        refine ⟨⟨htakes.sound, ?_, ?_, ?_⟩, hs', by linarith, hend⟩
        · rw [map_cons, sum_cons, ← htakes.quantity_eq]
          linarith
        · rw [map_cons, sum_cons, ← htakes.costLocal_eq]
          linarith
        · rw [map_cons, sum_cons, ← htakes.costBase_eq]
          linarith
      · rw [not_le] at hle
        rw [min_eq_left hle.le] at hreq hq hl hb
        have hstop : ¬ 0 < totals₁.required := by rw [hreq, sub_self]; exact lt_irrefl 0
        rw [disposalTotals_of_nonpos hstop] at h
        cases h
        rw [if_neg (not_le.mpr hle)]
        have hleft := hlot.shrink (sub_pos.mpr hle)
          (hlot.remaining_storable.sub hs.required_storable hlot.remaining_pos.le hpos.le)
          (sub_le_self _ hpos.le)
        refine ⟨⟨forall_mem_cons.mpr ⟨hleft, hrest⟩, ?_, ?_, ?_⟩, hs₁, by linarith,
          .inl (by rw [hreq, sub_self])⟩
        · simp only [map_cons, sum_cons, CostLot.shrunk]
          linarith
        · simp only [map_cons, sum_cons]
          linarith
        · simp only [map_cons, sum_cons]
          linarith
    · cases h
      rw [consumedLots_of_nonpos (not_lt.mp hpos)]
      exact ⟨⟨hlots, by simp, by simp, by simp⟩, hs, rfl,
        .inl (le_antisymm (not_lt.mp hpos) hs.required_nonneg)⟩

theorem disposalTotals_consumed (hlots : ∀ lot ∈ lots, lot.Sound) (hq : Storable q) (h0 : 0 ≤ q)
    (hle : q ≤ (lots.map (·.remainingQuantity)).sum)
    (h : disposalTotals lots { required := q } = .ok totals) :
    totals.consumedQuantity = q ∧
      Takes lots (consumedLots lots q).2 q totals.costLocal totals.costBase := by
  obtain ⟨htakes, hs, hsum, hend⟩ := disposalTotals_takes hlots
    ⟨hq, h0, storable_zero, storable_zero, storable_zero⟩ h
  simp only [add_zero, sub_zero] at htakes hsum hend
  have hconsumed : totals.consumedQuantity = q := by
    rcases hend with hzero | hnil
    · linarith
    · have hquantity := htakes.quantity_eq
      rw [hnil, map_nil, sum_nil, zero_add] at hquantity
      have hreq := hs.required_nonneg
      linarith
  rw [hconsumed] at htakes
  exact ⟨hconsumed, htakes⟩

variable {r : LotDisposalResult}

/-- **A completed disposal.** Of a sound book that covers the quantity, it leaves the lots of
`consumedLots` and returns the checked totals. -/
theorem fifoConsume_eq_ok {b b' : FifoBook} (hb : b.Sound) (hq : Storable q) (hpos : 0 < q)
    (hle : q ≤ b.available) :
    fifoConsume q b = .ok r b' ↔
      ∃ totals, disposalTotals b.openLots { required := q } = .ok totals ∧
        LotDisposalResult.new totals.costBase totals.costLocal q totals.allocations = .ok r ∧
        b' = ⟨(consumedLots b.openLots q).2, b.closedLots ++ (consumedLots b.openLots q).1,
          b.available - q⟩ := by
  have hneg : nonPositiveSellQuantityError q = none := by
    rw [nonPositiveSellQuantityError, if_pos hpos.le]
  have hcover : q ≤ (b.openLots.map (·.remainingQuantity)).sum :=
    hle.trans_eq hb.available_eq
  have hsub : costBasisStateLedger.subtract b.available q "available_quantity" =
      .ok (b.available - q) :=
    subtract_of_nonneg hb.available_storable hq (hpos.le.trans hle) hpos.le
  unfold fifoConsume
  simp only [bind_get_eq_ok, hneg, if_neg (not_lt.mpr hle), if_neg hpos.ne']
  rw [bind_eq_ok]
  have hreq : Storable (DisposalTotals.required { required := q }) := hq
  have hloop : ∀ {totals b₁}, consumeFifoLots b.openLots { required := q } b = .ok totals b₁ ↔ _ :=
    fun {totals b₁} => consumeFifoLots_eq_ok rfl hb.lots hreq
  constructor
  · rintro ⟨totals, _, hrun, h⟩
    obtain ⟨htotals, rfl⟩ := hloop.mp hrun
    have hcons := (disposalTotals_consumed hb.lots hq hpos.le hcover htotals).1
    simp only [hcons, hsub, bind_liftM_eq_ok, Except.ok.injEq, exists_eq_left', bind_modify_eq_ok,
      liftM_eq_ok] at h
    exact ⟨totals, htotals, h.1, h.2⟩
  · rintro ⟨totals, htotals, hr, rfl⟩
    have hcons := (disposalTotals_consumed hb.lots hq hpos.le hcover htotals).1
    refine ⟨totals, _, hloop.mpr ⟨htotals, rfl⟩, ?_⟩
    simp only [hcons, hsub, bind_liftM_eq_ok, Except.ok.injEq, exists_eq_left', bind_modify_eq_ok,
      liftM_eq_ok]
    exact ⟨hr, trivial⟩

theorem fifoConsume_cases {b b' : FifoBook} (h : fifoConsume q b = .ok r b') :
    (b' = b ∧ (q = 0 ∧ r = .empty ∨ ∃ reason, r = .failed reason)) ∨
      (0 < q ∧ q ≤ b.available ∧ ∃ totals b₁ left,
        consumeFifoLots b.openLots { required := q } b = .ok totals b₁ ∧
        costBasisStateLedger.subtract b.available totals.consumedQuantity "available_quantity" =
          .ok left ∧
        LotDisposalResult.new totals.costBase totals.costLocal totals.consumedQuantity
          totals.allocations = .ok r ∧
        b' = { b₁ with available := left }) := by
  unfold fifoConsume at h
  rw [bind_get_eq_ok] at h
  by_cases hneg : 0 ≤ q
  · rw [nonPositiveSellQuantityError, if_pos hneg] at h
    dsimp only at h
    split_ifs at h with h1 h2
    · obtain ⟨rfl, rfl⟩ := pure_eq_ok.mp h
      exact .inl ⟨rfl, .inr ⟨_, rfl⟩⟩
    · obtain ⟨rfl, rfl⟩ := pure_eq_ok.mp h
      exact .inl ⟨rfl, .inl ⟨h2, rfl⟩⟩
    · obtain ⟨totals, b₁, hloop, h⟩ := bind_eq_ok.mp h
      simp only [bind_liftM_eq_ok, bind_modify_eq_ok, liftM_eq_ok] at h
      obtain ⟨left, hleft, hnew, rfl⟩ := h
      exact .inr ⟨lt_of_le_of_ne hneg (Ne.symm h2), not_lt.mp h1, totals, b₁, left, hloop, hleft,
        hnew, rfl⟩
  · rw [nonPositiveSellQuantityError, if_neg hneg] at h
    obtain ⟨rfl, rfl⟩ := pure_eq_ok.mp h
    exact .inl ⟨rfl, .inr ⟨_, rfl⟩⟩

theorem fifoConsume_sound {b b' : FifoBook} (hb : b.Sound) (hq : Storable q)
    (h : fifoConsume q b = .ok r b') :
    b'.Sound ∧ b'.openQuantity + r.consumedQuantity = b.openQuantity ∧
      b'.costLocal + r.costLocal = b.costLocal ∧ b'.costBase + r.costBase = b.costBase := by
  rcases fifoConsume_cases h with ⟨rfl, ⟨-, rfl⟩ | ⟨reason, rfl⟩⟩ | ⟨hpos, hle, -⟩
  · exact ⟨hb, add_zero _, add_zero _, add_zero _⟩
  · exact ⟨hb, add_zero _, add_zero _, add_zero _⟩
  · obtain ⟨totals, htotals, hr, rfl⟩ := (fifoConsume_eq_ok hb hq hpos hle).mp h
    obtain ⟨-, htakes⟩ := disposalTotals_consumed hb.lots hq hpos.le
      (hle.trans_eq hb.available_eq) htotals
    obtain ⟨rfl, -, -, -⟩ := LotDisposalResult.new_eq_ok hr
    refine ⟨⟨htakes.sound, ?_, hb.available_storable.sub hq (hpos.le.trans hle) hpos.le⟩,
      htakes.quantity_eq, htakes.costLocal_eq, htakes.costBase_eq⟩
    rw [hb.available_eq]
    exact sub_eq_of_eq_add htakes.quantity_eq.symm

end LotusCore
