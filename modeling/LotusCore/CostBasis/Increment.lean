import LotusCore.CostBasis.Accepted
import LotusCore.CostBasis.FifoConsumption

/-!
# Restored FIFO lots

`process_increment` re-adds the open lots of a book from their states. A restored lot keeps its
quantities and its open costs, and its unit costs are derived anew from the rounded open cost.

* `CostLot.refreshed`: a lot with its unit costs derived from its open costs.
* `lotStates`, `lotStates_eq_ok`: the open states of some lots.
* `CostLot.RestoredBy`, `restoredLot`: the transaction that re-adds a lot.
* **`restoreOpenLots_fifo`**: re-adding lots puts their refreshed forms behind the open lots.
-/

namespace LotusCore

open Exec List

/-- The lot with its unit costs derived from its open costs. -/
def CostLot.refreshed (lot : CostLot) : CostLot :=
  assignFifoLotCosts lot lot.costBase lot.costLocal

/-! ## States after a disposal -/

def lotStates (lots : List CostLot) : Except Raised (List (String × OpenLotState)) :=
  lots.mapM fun lot => do
    let state ← lot.openState
    .ok (lot.transactionId, state)

theorem openLotStates_eq (b : FifoBook) :
    b.openLotStates = lotStates (b.closedLots ++ b.openLots) :=
  rfl

def CostLot.SameState (lot lot' : CostLot) : Prop :=
  lot'.transactionId = lot.transactionId ∧ lot'.openState = lot.openState

theorem lotStates_congr {lots lots' : List CostLot}
    (h : List.Forall₂ CostLot.SameState lots lots') :
    lotStates lots' = lotStates lots := by
  unfold lotStates
  induction h with
  | nil => rfl
  | cons hab _ ih => rw [mapM_cons, mapM_cons, hab.1, hab.2, ih]

theorem CostLot.openState_congr {lot lot' : CostLot}
    (ho : lot'.originalQuantity = lot.originalQuantity)
    (hr : lot'.remainingQuantity = lot.remainingQuantity) (hl : lot'.costLocal = lot.costLocal)
    (hb : lot'.costBase = lot.costBase) : lot'.openState = lot.openState := by
  unfold CostLot.openState
  rw [Ledger.multiply_congr hl, Ledger.multiply_congr hb, ho, hr]

variable {lots : List CostLot}

/-- A relation to a lot that ignores its open quantity survives a disposal. -/
theorem forall₂_consumedLots {α : Type} {R : α → CostLot → Prop} {xs : List α}
    {q : ℚ} (hR : ∀ x lot q, R x lot → R x (lot.shrunk q))
    (h : List.Forall₂ R xs lots) :
    List.Forall₂ R xs ((consumedLots lots q).1 ++ (consumedLots lots q).2) := by
  induction h generalizing q with
  | nil => exact .nil
  | @cons x lot xs lots hx h ih =>
    rw [consumedLots]
    split_ifs
    · exact .cons hx h
    · exact .cons (hR x lot 0 hx) ih
    · exact .cons (hR x lot _ hx) h

/-! ## Restoring a book -/

/-- The transaction re-adds the lot with its open quantity and its open costs. -/
structure CostLot.RestoredBy (lot : CostLot) (r : CostBasisTransaction) : Prop where
  transactionId : r.transactionId = lot.transactionId
  lotId : "LOT-" ++ r.transactionId = lot.lotId
  acquisitionDate : utcTransactionDate r = lot.acquisitionDate
  quantity : r.quantity = lot.remainingQuantity
  original : r.sourceLotOriginalQuantity = some lot.originalQuantity
  costLocal : r.netCostLocal = some lot.costLocal
  costBase : r.netCost = some lot.costBase

theorem fifoAddBuyLot_restoredBy {lot : CostLot} {r : CostBasisTransaction} {b : FifoBook}
    (h : lot.RestoredBy r) (hlot : lot.Sound) (hb : Storable b.available)
    (hsum : Storable (b.available + lot.remainingQuantity)) :
    fifoAddBuyLot r b = .ok () { b with
      openLots := b.openLots ++ [lot.refreshed]
      available := b.available + lot.remainingQuantity } := by
  have hin : validatedBuyLotInputs r =
      .ok (some (lot.remainingQuantity, lot.costBase, lot.costLocal)) :=
    validatedBuyLotInputs_eq_some.mpr ⟨h.quantity, h.costBase, h.costLocal, hlot.remaining_pos,
      hlot.costBase_nonneg, hlot.costLocal_nonneg⟩
  have horig : ∀ q, resolveSourceLotOriginalQuantity r.sourceLotOriginalQuantity
      r.sourceLotOrderQuantity q = .ok lot.originalQuantity := by
    intro q
    rw [h.original]
    rfl
  have hnew : CostLot.new r.transactionId (utcTransactionDate r) lot.remainingQuantity
      (workingRound (lot.costLocal / lot.remainingQuantity))
      (workingRound (lot.costBase / lot.remainingQuantity)) lot.originalQuantity =
      .ok lot.refreshed := by
    unfold CostLot.new
    rw [if_neg (not_lt.mpr hlot.remaining_le), h.lotId, h.transactionId, h.acquisitionDate]
    rfl
  have hadd : costBasisStateLedger.add b.available lot.remainingQuantity "available_quantity" =
      .ok (b.available + lot.remainingQuantity) :=
    (Ledger.add_eq_ok hb hlot.remaining_storable).mpr ⟨rfl, hsum⟩
  unfold fifoAddBuyLot
  rw [bind_liftM_eq_ok]
  refine ⟨_, hin, ?_⟩
  simp only [horig, hnew, hadd, bind_liftM_eq_ok, bind_get_eq_ok, bind_modify_eq_ok,
    modify_eq_ok, Except.ok.injEq, exists_eq_left']

/-- A lot of the checkpoint as `_load_open_lot_checkpoint_transactions` re-adds it. -/
def restoredLot (t : CostBasisTransaction) (s : OpenLotState) : CostBasisTransaction :=
  { t with
    sourceLotOrderQuantity := some t.quantity
    sourceLotOriginalQuantity := some s.originalQuantity
    quantity := s.quantity
    netCostLocal := some s.costLocal
    netCost := some s.costBase }

/-! ## The restored book -/

variable {states : List (String × OpenLotState)}

theorem lotStates_eq_ok : lotStates lots = .ok states ↔ List.Forall₂ (fun (lot : CostLot) p =>
      p.1 = lot.transactionId ∧ lot.openState = .ok p.2) lots states := by
  have hone : ∀ (lot : CostLot) (p : String × OpenLotState),
      (do let state ← lot.openState; .ok (lot.transactionId, state) : Except Raised _) = .ok p ↔
        p.1 = lot.transactionId ∧ lot.openState = .ok p.2 := by
    rintro lot ⟨id, s⟩
    rw [except_bind_eq_ok]
    constructor
    · rintro ⟨s', hs', h⟩
      cases h
      exact ⟨rfl, hs'⟩
    · rintro ⟨rfl, hs⟩
      exact ⟨s, hs, rfl⟩
  unfold lotStates
  rw [except_mapM_eq_ok]
  exact ⟨fun h => h.imp fun lot p => (hone lot p).mp, fun h => h.imp fun lot p => (hone lot p).mpr⟩

theorem lotStates_keys
    (h : lotStates lots = .ok states) : states.map Prod.fst = lots.map (·.transactionId) := by
  rw [lotStates_eq_ok] at h
  induction h with
  | nil => rfl
  | cons hp _ ih => rw [map_cons, map_cons, hp.1, ih]

theorem lotStates_append_eq_ok {xs ys : List CostLot} : lotStates (xs ++ ys) = .ok states ↔
      ∃ s₁ s₂, lotStates xs = .ok s₁ ∧ lotStates ys = .ok s₂ ∧ states = s₁ ++ s₂ := by
  constructor
  · intro h
    have hall := (lotStates_eq_ok.mp h).flip
    exact ⟨states.take xs.length, states.drop xs.length,
      lotStates_eq_ok.mpr (forall₂_take_append _ _ _ hall).flip,
      lotStates_eq_ok.mpr (forall₂_drop_append _ _ _ hall).flip,
      (take_append_drop _ _).symm⟩
  · rintro ⟨s₁, s₂, h₁, h₂, rfl⟩
    exact lotStates_eq_ok.mpr (rel_append (lotStates_eq_ok.mp h₁) (lotStates_eq_ok.mp h₂))

/-- The book with lots re-added behind its own. -/
def FifoBook.restored (b : FifoBook) (lots : List CostLot) : FifoBook :=
  { b with
    openLots := b.openLots ++ lots.map CostLot.refreshed
    available := b.available + (lots.map (·.remainingQuantity)).sum }

@[simp] theorem FifoBook.restored_nil (b : FifoBook) : b.restored [] = b := by
  simp [FifoBook.restored]

@[simp] theorem FifoBook.restored_restored (b : FifoBook) (lot : CostLot) (lots : List CostLot) :
    (b.restored [lot]).restored lots = b.restored (lot :: lots) := by
  simp [FifoBook.restored, add_assoc]

/-- Of some lots with the transactions that re-add them, those of a book. -/
def lotsOf (key : BookKey) (pairs : List (CostLot × CostBasisTransaction)) : List CostLot :=
  (pairs.filter fun p => p.2.bookKey = key).map Prod.fst

/-- **Re-added lots.** Each lot goes behind the open lots of its own book. -/
theorem restoreOpenLots_fifo {pairs : List (CostLot × CostBasisTransaction)}
    {e : LotDispositionEngine} {f : BookKey → FifoBook}
    (hpairs : ∀ p ∈ pairs, p.1.RestoredBy p.2 ∧ p.1.Sound) (he : e.books = .fifo f)
    (hav : ∀ key, Storable (f key).available ∧ 0 ≤ (f key).available)
    (hsum : ∀ key,
      Storable ((f key).available + ((lotsOf key pairs).map (·.remainingQuantity)).sum)) :
    LotDispositionEngine.restoreOpenLots (pairs.map Prod.snd) e =
      .ok () { e with books := .fifo fun key => (f key).restored (lotsOf key pairs) } := by
  induction pairs generalizing e f with
  | nil =>
    simp only [lotsOf, filter_nil, map_nil, FifoBook.restored_nil]
    rw [← he]
    rfl
  | cons p pairs ih =>
    obtain ⟨hp, hlot⟩ := hpairs p (by simp)
    set book := p.2.bookKey with hbook
    have hown : lotsOf book (p :: pairs) = p.1 :: lotsOf book pairs := by
      simp [lotsOf, ← hbook]
    have hother {key : BookKey} (hkey : key ≠ book) :
        lotsOf key (p :: pairs) = lotsOf key pairs := by
      simp [lotsOf, ← hbook, hkey.symm]
    have hrest : 0 ≤ ((lotsOf book pairs).map (·.remainingQuantity)).sum := by
      refine sum_nonneg fun x hx => ?_
      obtain ⟨lot, hlot, rfl⟩ := mem_map.mp hx
      obtain ⟨q, hq, rfl⟩ := mem_map.mp hlot
      exact (hpairs q (by simp [mem_of_mem_filter hq])).2.remaining_pos.le
    have hsum₀ := hsum book
    rw [hown, map_cons, sum_cons] at hsum₀
    have hav₁ : Storable ((f book).available + p.1.remainingQuantity) :=
      .of_le ((hav book).1.onGrid.add hlot.remaining_storable.onGrid)
        (add_nonneg (hav book).2 hlot.remaining_pos.le) (by linarith) hsum₀
    have hhead : LotDispositionEngine.onBooks (CostBasisBooks.addBuyLot p.2) e =
        .ok () { e with books := .fifo (Function.update f book ((f book).restored [p.1])) } := by
      rw [LotDispositionEngine.onBooks_eq_ok]
      refine ⟨_, ?_, rfl⟩
      rw [he, CostBasisBooks.addBuyLot_fifo_eq_ok]
      refine ⟨_, fifoAddBuyLot_restoredBy hp hlot (hav book).1 hav₁, ?_⟩
      simp [FifoBook.restored, hbook]
    have hav' : ((f book).restored [p.1]).available =
        (f book).available + p.1.remainingQuantity := by
      simp [FifoBook.restored]
    refine bind_eq_ok.mpr ⟨(), _, hhead, (ih (f := Function.update f book
      ((f book).restored [p.1])) (fun q hq => hpairs q (by simp [hq])) rfl (fun key => ?_)
      fun key => ?_).trans ?_⟩
    · by_cases hkey : key = book
      · rw [hkey, Function.update_self, hav']
        exact ⟨hav₁, add_nonneg (hav book).2 hlot.remaining_pos.le⟩
      · rw [Function.update_of_ne hkey]
        exact hav key
    · by_cases hkey : key = book
      · rw [hkey, Function.update_self, hav', add_assoc]
        exact hsum₀
      · rw [Function.update_of_ne hkey, ← hother hkey]
        exact hsum key
    · congr 3
      funext key
      by_cases hkey : key = book
      · rw [hkey, Function.update_self, hown, FifoBook.restored_restored]
      · rw [Function.update_of_ne hkey, hother hkey]

/-! ## The increment -/

theorem validTransactions_of_parsed {l : List CostBasisTransaction}
    (h : ∀ t ∈ l, t.errorReason.getD "" = "") : validTransactions l = l :=
  filter_eq_self.mpr fun t ht => by simpa using h t ht

section Increment

variable {key : BookKey} {timeline : List CostBasisTransaction} {t : CostBasisTransaction}

theorem transactionOrderKey_restoredLot {s : OpenLotState} (ht : t.sourceLotOrderQuantity = none) :
    transactionOrderKey (restoredLot t s) = transactionOrderKey t := by
  have hq : (restoredLot t s).orderQuantity = t.orderQuantity := by
    unfold CostBasisTransaction.orderQuantity
    rw [ht]
    rfl
  unfold transactionOrderKey
  rw [hq]
  rfl

end Increment

def bookedTrade (id : String) (type : TransactionType) (date : ℤ) (quantity gross : ℚ) :
    CostBasisTransaction where
  transactionId := id
  portfolioId := "P"
  instrumentId := "I"
  securityId := "S"
  transactionType := type
  transactionDate := date
  quantity := quantity
  grossTransactionAmount := gross
  tradeCurrency := "USD"
  portfolioBaseCurrency := "USD"

end LotusCore
