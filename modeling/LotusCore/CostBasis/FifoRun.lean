import LotusCore.CostBasis.Engine
import LotusCore.CostBasis.FifoConsumption

/-!
# Runs of the FIFO strategy

Whole runs of `FIFOBasisStrategy` over all of its books, with the costs that entered and left each
book added up on the side.

* `FifoRun.step`: one call that completed, and what it moved.
* `FifoRun.Conserved`: the invariant of a run, book by book.
* **`fifo_book_conserved`**: in every reached state the cached quantity is the open quantity, every
  open lot is within its original quantity, and no cost is lost in either currency.
-/

namespace LotusCore

/-- A call of the strategy interface. -/
inductive LotCall
  | addBuyLot (t : CostBasisTransaction)
  | consume (key : BookKey) (sellQuantity : ℚ)
  | restate (key : BookKey) (signedQuantityDelta : ℚ)
  | transferBasisOut (key : BookKey) (costBase costLocal : ℚ)

/-- The costs that entered and left one book, in one currency. -/
structure CostTotals where
  added : ℚ := 0
  disposed : ℚ := 0
  transferred : ℚ := 0

/-- What has left the book or is still open, for an open cost. -/
def CostTotals.accounted (c : CostTotals) (openCost : ℚ) : ℚ :=
  c.disposed + c.transferred + openCost

/-- The books of a strategy and the costs that moved through each. -/
structure FifoRun where
  books : BookKey → FifoBook := fun _ => {}
  totalsLocal : BookKey → CostTotals := fun _ => {}
  totalsBase : BookKey → CostTotals := fun _ => {}

namespace FifoRun

def put (r : FifoRun) (key : BookKey) (b : FifoBook) (l c : CostTotals) : FifoRun where
  books := Function.update r.books key b
  totalsLocal := Function.update r.totalsLocal key l
  totalsBase := Function.update r.totalsBase key c

/-- One call. A call that raises ends the run. -/
def step (r : FifoRun) : LotCall → Except Raised FifoRun
  | .addBuyLot t =>
    let key := t.bookKey
    match fifoAddBuyLot t (r.books key) with
    | .ok _ b => .ok <| r.put key b
        { r.totalsLocal key with added := (r.totalsLocal key).added + t.netCostLocal.getD 0 }
        { r.totalsBase key with added := (r.totalsBase key).added + t.netCost.getD 0 }
    | .error e _ => .error e
  | .consume key q =>
    match fifoConsume q (r.books key) with
    | .ok result b => .ok <| r.put key b
        { r.totalsLocal key with disposed := (r.totalsLocal key).disposed + result.costLocal }
        { r.totalsBase key with disposed := (r.totalsBase key).disposed + result.costBase }
    | .error e _ => .error e
  | .restate key d =>
    match fifoRestate d (r.books key) with
    | .ok _ b => .ok (r.put key b (r.totalsLocal key) (r.totalsBase key))
    | .error e _ => .error e
  | .transferBasisOut key costBase costLocal =>
    match fifoTransferBasisOut costBase costLocal (r.books key) with
    | .ok result b => .ok <| r.put key b
        { r.totalsLocal key with
          transferred := (r.totalsLocal key).transferred + result.transferredCostLocal }
        { r.totalsBase key with
          transferred := (r.totalsBase key).transferred + result.transferredCostBase }
    | .error e _ => .error e

def run (calls : List LotCall) : Except Raised FifoRun := calls.foldlM step {}

/-- The book is sound and its costs are accounted for, in both currencies. -/
structure Conserved (r : FifoRun) (key : BookKey) : Prop where
  sound : (r.books key).Sound
  costLocal : (r.totalsLocal key).added = (r.totalsLocal key).accounted (r.books key).costLocal
  costBase : (r.totalsBase key).added = (r.totalsBase key).accounted (r.books key).costBase

theorem Conserved.put {r : FifoRun} (h : ∀ key, r.Conserved key) (key : BookKey) {b : FifoBook}
    {l c : CostTotals} (hb : b.Sound) (hl : l.added = l.accounted b.costLocal)
    (hc : c.added = c.accounted b.costBase) : ∀ k, (r.put key b l c).Conserved k := by
  intro k
  by_cases hk : k = key
  · subst hk
    constructor <;> simpa [FifoRun.put]
  · obtain ⟨h1, h2, h3⟩ := h k
    constructor <;> simpa [FifoRun.put, Function.update_of_ne hk]

end FifoRun

/-- The values of a call fit the 18 digit columns: costs and quantities of an added lot, and the
quantity of a disposal. -/
def LotCall.Representable : LotCall → Prop
  | .addBuyLot t => Storable t.quantity ∧ (∀ c ∈ t.netCost, Storable c) ∧
      ∀ c ∈ t.netCostLocal, Storable c
  | .consume _ q => Storable q
  | .restate _ _ => True
  | .transferBasisOut _ _ _ => True

/-- One completed call keeps every book sound and its costs accounted for. -/
theorem FifoRun.step_conserved {r r' : FifoRun} {call : LotCall} (hcall : call.Representable)
    (hr : ∀ key, r.Conserved key) (h : r.step call = .ok r') : ∀ key, r'.Conserved key := by
  unfold FifoRun.step at h
  cases call with
  | addBuyLot t =>
    obtain ⟨hs, hl, hc⟩ := hr t.bookKey
    rcases hadd : fifoAddBuyLot t (r.books t.bookKey) with ⟨u, b⟩ | ⟨e, b⟩
    · simp only [hadd, Except.ok.injEq] at h
      obtain ⟨hs', -, hl', hc'⟩ := fifoAddBuyLot_sound hs hcall.1 hcall.2.1 hcall.2.2 hadd
      rw [← h]
      refine Conserved.put hr _ hs' ?_ ?_
      · simp only [CostTotals.accounted, hl, hl']; ring
      · simp only [CostTotals.accounted, hc, hc']; ring
    · simp [hadd] at h
  | consume key q =>
    obtain ⟨hs, hl, hc⟩ := hr key
    rcases hcons : fifoConsume q (r.books key) with ⟨result, b⟩ | ⟨e, b⟩
    · simp only [hcons, Except.ok.injEq] at h
      obtain ⟨hs', -, hl', hc'⟩ := fifoConsume_sound hs hcall hcons
      rw [← h]
      refine Conserved.put hr _ hs' ?_ ?_
      · simp only [CostTotals.accounted, hl, ← hl']; ring
      · simp only [CostTotals.accounted, hc, ← hc']; ring
    · simp [hcons] at h
  | restate key d =>
    obtain ⟨hs, hl, hc⟩ := hr key
    rcases hrest : fifoRestate d (r.books key) with ⟨result, b⟩ | ⟨e, b⟩
    · simp only [hrest, Except.ok.injEq] at h
      obtain ⟨hs', -, hl', hc'⟩ := fifoRestate_sound hs hrest
      rw [← h]
      exact Conserved.put hr _ hs' (hl' ▸ hl) (hc' ▸ hc)
    · simp [hrest] at h
  | transferBasisOut key cb cl =>
    obtain ⟨hs, hl, hc⟩ := hr key
    rcases htr : fifoTransferBasisOut cb cl (r.books key) with ⟨result, b⟩ | ⟨e, b⟩
    · simp only [htr, Except.ok.injEq] at h
      obtain ⟨hs', -, hl', hc'⟩ := fifoTransferBasisOut_sound hs htr
      rw [← h]
      refine Conserved.put hr _ hs' ?_ ?_
      · simp only [CostTotals.accounted, hl, ← hl']; ring
      · simp only [CostTotals.accounted, hc, ← hc']; ring
    · simp [htr] at h

theorem FifoRun.run_conserved {calls : List LotCall} (hcalls : ∀ c ∈ calls, c.Representable)
    {r : FifoRun} (h : FifoRun.run calls = .ok r) (key : BookKey) : r.Conserved key := by
  refine Exec.foldlM_invariant (I := fun r => ∀ key, FifoRun.Conserved r key)
    (fun c hc _ _ hr hstep => FifoRun.step_conserved (hcalls c hc) hr hstep) ?_ h key
  intro key
  refine ⟨FifoBook.sound_empty, ?_, ?_⟩
  · simp [CostTotals.accounted, FifoBook.costLocal]
  · simp [CostTotals.accounted, FifoBook.costBase]

theorem openStates_of_sound {lots : List CostLot} (h : ∀ lot ∈ lots, lot.Sound) :
    ∃ states, openStates lots = .ok states ∧
      states.map (·.costLocal) = lots.map CostLot.costLocal ∧
      states.map (·.costBase) = lots.map CostLot.costBase ∧
      states.map (·.quantity) = lots.map (·.remainingQuantity) := by
  induction lots with
  | nil => exact ⟨[], rfl, rfl, rfl, rfl⟩
  | cons lot lots ih =>
    obtain ⟨states, hs, hl, hb, hq⟩ := ih fun x hx => h x (by simp [hx])
    have hlot := (h lot (by simp)).openState
    refine ⟨_ :: states, Exec.except_mapM_eq_ok.mpr
      (.cons hlot (Exec.except_mapM_eq_ok.mp hs)), ?_, ?_, ?_⟩
    · simp only [List.map_cons, hl]
    · simp only [List.map_cons, hb]
    · simp only [List.map_cons, hq]

/-- **Conservation.** In every state a run of completed calls reaches, the cached quantity is the
open quantity, every open lot is positive and within its original quantity, and in each currency
the cost added is the cost disposed, transferred out, or still open. -/
theorem fifo_book_conserved {calls : List LotCall} (hcalls : ∀ c ∈ calls, c.Representable)
    {r : FifoRun} (hrun : FifoRun.run calls = .ok r) (key : BookKey) :
    (r.books key).available = ((r.books key).openLots.map (·.remainingQuantity)).sum ∧
      (∀ lot ∈ (r.books key).openLots,
        0 < lot.remainingQuantity ∧ lot.remainingQuantity ≤ lot.originalQuantity) ∧
      ∃ states, openStates (r.books key).openLots = .ok states ∧
        (r.totalsLocal key).added = (r.totalsLocal key).disposed +
          (r.totalsLocal key).transferred + (states.map (·.costLocal)).sum ∧
        (r.totalsBase key).added = (r.totalsBase key).disposed +
          (r.totalsBase key).transferred + (states.map (·.costBase)).sum := by
  obtain ⟨hs, hl, hc⟩ := FifoRun.run_conserved hcalls hrun key
  obtain ⟨states, hstates, hsl, hsb, -⟩ := openStates_of_sound hs.lots
  refine ⟨hs.available_eq, fun lot hlot => ?_, states, hstates, ?_, ?_⟩
  · exact ⟨(hs.lots lot hlot).remaining_pos, (hs.lots lot hlot).remaining_le⟩
  · rw [hl, hsl]; rfl
  · rw [hc, hsb]; rfl

/-- A purchase whose cost is already calculated, the same in both currencies. -/
def costedBuy (id : String) (quantity cost : ℚ) : CostBasisTransaction where
  transactionId := id
  portfolioId := "P"
  instrumentId := "I"
  securityId := "S"
  transactionType := .buy
  transactionDate := 0
  quantity := quantity
  grossTransactionAmount := cost
  tradeCurrency := "USD"
  portfolioBaseCurrency := "USD"
  netCost := some cost
  netCostLocal := some cost

/-- A purchase of 3 at a cost of 1, one unit sold, a split to 4 and part of the basis moved out. -/
theorem fifo_book_conserved_split :
    ∃ r, FifoRun.run [.addBuyLot (costedBuy "B1" 3 1), .consume ("P", "I") 1,
        .restate ("P", "I") 2, .transferBasisOut ("P", "I") (1 / 10) (1 / 10)] = .ok r ∧
      (r.books ("P", "I")).available =
        ((r.books ("P", "I")).openLots.map (·.remainingQuantity)).sum := by
  set calls : List LotCall := [.addBuyLot (costedBuy "B1" 3 1), .consume ("P", "I") 1,
    .restate ("P", "I") 2, .transferBasisOut ("P", "I") (1 / 10) (1 / 10)] with hcalls
  have hok : (FifoRun.run calls).isOk = true := by decide +kernel
  have hrep : ∀ c ∈ calls, c.Representable := by
    simp only [hcalls, List.mem_cons, List.not_mem_nil, or_false, forall_eq_or_imp, forall_eq,
      LotCall.Representable, costedBuy, Option.mem_some_iff, forall_eq', and_true]
    decide +kernel
  rcases h : FifoRun.run calls with e | r
  · rw [h] at hok
    cases hok
  · exact ⟨r, rfl, (fifo_book_conserved hrep h ("P", "I")).1⟩

/-- A lot of a tenth of a quantum with storable costs: the lot is open, but the cached quantity has
not moved. -/
theorem fifo_available_ne_open_of_subquantum :
    ((∀ c ∈ (costedBuy "B1" (1 / 10 ^ 11) 1).netCost, Storable c ∧ 0 ≤ c) ∧
      ∀ c ∈ (costedBuy "B1" (1 / 10 ^ 11) 1).netCostLocal, Storable c ∧ 0 ≤ c) ∧
      ∃ r, FifoRun.run [.addBuyLot (costedBuy "B1" (1 / 10 ^ 11) 1)] = .ok r ∧
        (r.books ("P", "I")).available ≠
          ((r.books ("P", "I")).openLots.map (·.remainingQuantity)).sum := by
  have hok : (FifoRun.run [.addBuyLot (costedBuy "B1" (1 / 10 ^ 11) 1)]).toOption.map
      (fun r => decide ((r.books ("P", "I")).available =
        ((r.books ("P", "I")).openLots.map (·.remainingQuantity)).sum)) = some false := by
    decide +kernel
  constructor
  · simp only [costedBuy, Option.mem_some_iff, forall_eq']
    decide +kernel
  · rcases h : FifoRun.run [.addBuyLot (costedBuy "B1" (1 / 10 ^ 11) 1)] with e | r
    · rw [h] at hok
      cases hok
    · rw [h] at hok
      exact ⟨r, rfl, by simpa [Except.toOption] using hok⟩

end LotusCore
