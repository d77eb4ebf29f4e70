import LotusCore.CostBasis.Restatement

/-!
# Runs of a cost-basis strategy

Whole runs of the strategy interface, under either method: the books a history of completed calls
reaches.

* `LotCall.run`: the books after a history of calls none of which raised.
* `LotCall.run_invariant`: what every completed call keeps, every run keeps.
* **`LotCall.available_storable`**: the ledger holds the available quantity of every book reached.
-/

namespace LotusCore

open Exec Decimal Ledger

variable {costBase costLocal : ℚ} {method : CostBasisMethod} {calls : List LotCall}

namespace LotCall

def perform : LotCall → EStateM Raised CostBasisBooks Unit
  | .addBuyLot t => CostBasisBooks.addBuyLot t
  | .consume key q => do
    let _ ← CostBasisBooks.consume key q
  | .restate key d => do
    let _ ← CostBasisBooks.restate key d
  | .transferBasisOut key costBase costLocal => do
    let _ ← CostBasisBooks.transferBasisOut key costBase costLocal

def run (method : CostBasisMethod) (calls : List LotCall) : Except Raised CostBasisBooks :=
  calls.foldlM (fun books call => stateAfter call.perform books) (CostBasisBooks.empty method)

variable {books b : CostBasisBooks} {key : BookKey}

theorem perform_consume_eq_ok {q : ℚ} {u : Unit} : (LotCall.consume key q).perform books = .ok u b ↔
      ∃ r, CostBasisBooks.consume key q books = .ok r b := by
  unfold perform
  rw [bind_eq_ok]
  constructor
  · rintro ⟨r, b₁, h, hb⟩
    obtain ⟨-, rfl⟩ := pure_eq_ok.mp hb
    exact ⟨r, h⟩
  · rintro ⟨r, h⟩
    exact ⟨r, b, h, pure_eq_ok.mpr ⟨rfl, rfl⟩⟩

theorem perform_restate_eq_ok {d : ℚ} {u : Unit} : (LotCall.restate key d).perform books = .ok u b ↔
      ∃ r, CostBasisBooks.restate key d books = .ok r b := by
  unfold perform
  rw [bind_eq_ok]
  constructor
  · rintro ⟨r, b₁, h, hb⟩
    obtain ⟨-, rfl⟩ := pure_eq_ok.mp hb
    exact ⟨r, h⟩
  · rintro ⟨r, h⟩
    exact ⟨r, b, h, pure_eq_ok.mpr ⟨rfl, rfl⟩⟩

theorem perform_transferBasisOut_eq_ok {u : Unit} :
    (LotCall.transferBasisOut key costBase costLocal).perform books = .ok u b ↔
      ∃ r, CostBasisBooks.transferBasisOut key costBase costLocal books = .ok r b := by
  unfold perform
  rw [bind_eq_ok]
  constructor
  · rintro ⟨r, b₁, h, hb⟩
    obtain ⟨-, rfl⟩ := pure_eq_ok.mp hb
    exact ⟨r, h⟩
  · rintro ⟨r, h⟩
    exact ⟨r, b, h, pure_eq_ok.mpr ⟨rfl, rfl⟩⟩

theorem run_invariant {I : CostBasisBooks → Prop} (hempty : I (CostBasisBooks.empty method))
    (hstep : ∀ call ∈ calls, ∀ books b u, I books → call.perform books = .ok u b → I b)
    (h : run method calls = .ok books) : I books := by
  refine foldlM_invariant (I := I) (fun call hcall s s' hs hok => ?_) hempty h
  obtain ⟨u, hu⟩ := stateAfter_eq_ok.mp hok
  exact hstep call hcall s s' u hs hu

theorem run_first_buy (t : CostBasisTransaction) (book : FifoBook)
    (h : stateAfter (fifoAddBuyLot t) {} = .ok book) :
    run .fifo [.addBuyLot t] = .ok (.fifo (Function.update (fun _ => {}) t.bookKey book)) := by
  obtain ⟨_, hbook⟩ := stateAfter_eq_ok.mp h
  have hstep : stateAfter (LotCall.addBuyLot t).perform (CostBasisBooks.empty .fifo) =
      .ok (.fifo (Function.update (fun _ => {}) t.bookKey book)) :=
    stateAfter_eq_ok.mpr ⟨(), CostBasisBooks.addBuyLot_fifo_eq_ok.mpr ⟨book, hbook, rfl⟩⟩
  unfold run
  rw [List.foldlM_cons, hstep]
  rfl

end LotCall

/-! ## Available quantities -/

section Available

variable {book book' : FifoBook} {pool pool' : AverageCostPool} {avco avco' : AvcoBook} {q : ℚ}
  {t : CostBasisTransaction}

theorem fifoAddBuyLot_available {u : Unit} (hs : Storable book.available)
    (h : fifoAddBuyLot t book = .ok u book') : Storable book'.available := by
  unfold fifoAddBuyLot at h
  obtain ⟨inputs, -, h⟩ := bind_liftM_eq_ok.mp h
  rcases inputs with _ | ⟨q, c, l⟩
  · obtain ⟨-, rfl⟩ := pure_eq_ok.mp h
    exact hs
  · simp only [bind_liftM_eq_ok, bind_get_eq_ok, bind_modify_eq_ok, modify_eq_ok] at h
    obtain ⟨_, -, _, -, available, ha, rfl⟩ := h
    exact storable_of_add ha

variable {r : LotDisposalResult}

theorem fifoConsume_available (hs : Storable book.available)
    (h : fifoConsume q book = .ok r book') : Storable book'.available := by
  rcases fifoConsume_cases h with ⟨rfl, -⟩ | ⟨-, -, _, _, _, -, hleft, -, rfl⟩
  · exact hs
  · exact storable_of_subtract hleft

theorem fifoRestate_available {d : ℚ} {r : LotRestatement}
    (h : fifoRestate d book = .ok r book') : Storable book'.available := by
  unfold fifoRestate at h
  simp only [bind_get_eq_ok, bind_liftM_eq_ok, bind_modify_eq_ok, pure_eq_ok] at h
  obtain ⟨r', -, _, -, rfl, rfl⟩ := h
  exact r.after_storable

theorem fifoTransferBasisOut_available {r : LotBasisTransferResult}
    (h : fifoTransferBasisOut costBase costLocal book = .ok r book') :
    book'.available = book.available := by
  unfold fifoTransferBasisOut at h
  simp only [bind_get_eq_ok, bind_liftM_eq_ok] at h
  obtain ⟨states, -, h⟩ := h
  rcases herr : basisTransferAmountError costBase costLocal
    (ambientSum (states.map (·.costBase))) (ambientSum (states.map (·.costLocal))) with _ | reason
  · simp only [herr] at h
    obtain ⟨_, b₁, halloc, h⟩ := bind_eq_ok.mp h
    simp only [bind_get_eq_ok, bind_liftM_eq_ok, liftM_eq_ok] at h
    obtain ⟨_, -, -, rfl⟩ := h
    exact (allocateFifoBasisTransfer_eq_ok (List.nil_append _).symm halloc).1
  · simp only [herr] at h
    rw [(pure_eq_ok.mp h).2]

theorem AverageCostPool.add_quantity {l b : ℚ} {u : Unit} (h : add q l b pool = .ok u pool') :
    Storable pool'.quantity := by
  unfold add at h
  simp only [bind_get_eq_ok, bind_liftM_eq_ok, bind_modify_eq_ok, modify_eq_ok] at h
  obtain ⟨_, hq, _, -, _, -, rfl⟩ := h
  exact storable_of_add hq

theorem AverageCostPool.dispose_quantity {cost : ℚ × ℚ} (h : dispose q pool = .ok cost pool') :
    Storable pool'.quantity ∧ Storable cost.1 ∧ Storable cost.2 := by
  unfold dispose at h
  simp only [bind_get_eq_ok, bind_liftM_eq_ok] at h
  obtain ⟨_, hq, h⟩ := h
  obtain ⟨_, _, -, h⟩ := bind_eq_ok.mp h
  simp only [bind_modify_eq_ok, bind_get_eq_ok, bind_liftM_eq_ok, pure_eq_ok] at h
  obtain ⟨_, hcb, _, hcl, rfl, rfl⟩ := h
  exact ⟨storable_of_subtract hq, storable_of_subtract hcb,
    storable_of_subtract hcl⟩

theorem AverageCostPool.transferBasisOut_quantity {l b : ℚ} {u : Unit}
    (h : transferBasisOut l b pool = .ok u pool') : pool'.quantity = pool.quantity := by
  unfold transferBasisOut at h
  simp only [bind_get_eq_ok, bind_liftM_eq_ok, bind_modify_eq_ok, modify_eq_ok] at h
  obtain ⟨_, -, _, -, rfl⟩ := h
  rfl

theorem AvcoBook.afterDisposal_pool (p : AverageCostPool) : (avco.afterDisposal p).pool = p := by
  unfold AvcoBook.afterDisposal
  split_ifs <;> rfl

theorem avcoAddBuyLot_available {known : List String} {u : Unit}
    (hs : Storable avco.pool.quantity) (h : avcoAddBuyLot known t avco = .ok u avco') :
    Storable avco'.pool.quantity := by
  rcases avcoAddBuyLot_eq_ok.mp h with ⟨-, rfl⟩ | ⟨_, _, _, p, _, -, hadd, -, -, rfl⟩
  · exact hs
  · exact AverageCostPool.add_quantity hadd

theorem avcoConsume_available (hs : Storable avco.pool.quantity)
    (h : avcoConsume q avco = .ok r avco') : Storable avco'.pool.quantity := by
  rcases avcoConsume_cases h with ⟨rfl, -⟩ |
    ⟨-, -, _, _, _, p, _, _, -, hdispose, rfl, -, -, -, -, -, -⟩
  · exact hs
  · rw [AvcoBook.afterDisposal_pool]
    exact (AverageCostPool.dispose_quantity hdispose).1

theorem avcoRestate_available {d : ℚ} {r : LotRestatement}
    (h : avcoRestate d avco = .ok r avco') : Storable avco'.pool.quantity := by
  obtain ⟨-, _, _, _, -, -, -, rfl⟩ := avcoRestate_eq_ok.mp h
  exact r.after_storable

theorem avcoTransferBasisOut_available {r : LotBasisTransferResult}
    (h : avcoTransferBasisOut costBase costLocal avco = .ok r avco') :
    avco'.pool.quantity = avco.pool.quantity := by
  unfold avcoTransferBasisOut at h
  rw [bind_get_eq_ok] at h
  rcases herr : basisTransferAmountError costBase costLocal avco.pool.costBase
    avco.pool.costLocal with _ | reason
  · simp only [herr] at h
    obtain ⟨_, -, h⟩ := bind_liftM_eq_ok.mp h
    obtain ⟨_, b₁, hpool, h⟩ := bind_eq_ok.mp h
    obtain ⟨p, hp, rfl⟩ := zoom_eq_ok.mp hpool
    rw [bind_get_eq_ok] at h
    obtain ⟨_, b₂, happly, h⟩ := bind_eq_ok.mp h
    simp only [bind_get_eq_ok, bind_liftM_eq_ok, liftM_eq_ok] at h
    obtain ⟨_, -, -, rfl⟩ := h
    unfold applyBasisTransfer at happly
    simp only [bind_get_eq_ok, bind_liftM_eq_ok, modify_eq_ok] at happly
    obtain ⟨_, -, _, -, rfl⟩ := happly
    exact AverageCostPool.transferBasisOut_quantity hp
  · simp only [herr] at h
    rw [(pure_eq_ok.mp h).2]

end Available

namespace LotCall

variable {books b : CostBasisBooks} {call : LotCall} {u : Unit}

theorem perform_available (hs : ∀ key, Storable (books.availableQuantity key))
    (h : call.perform books = .ok u b) : ∀ key, Storable (b.availableQuantity key) := by
  cases books with
  | fifo f =>
    -- one book is replaced by a book whose available quantity the ledger holds
    suffices hput : ∃ key book, b = .fifo (Function.update f key book) ∧ Storable book.available by
      obtain ⟨key, book, rfl, hbook⟩ := hput
      exact (Function.forall_update_iff f (p := fun _ book => Storable book.available)).mpr
        ⟨hbook, fun k _ => hs k⟩
    cases call with
    | addBuyLot t =>
      obtain ⟨book, hbook, rfl⟩ := CostBasisBooks.addBuyLot_fifo_eq_ok.mp h
      exact ⟨_, book, rfl, fifoAddBuyLot_available (hs t.bookKey) hbook⟩
    | consume key q =>
      obtain ⟨r, h⟩ := perform_consume_eq_ok.mp h
      obtain ⟨book, hbook, rfl⟩ := CostBasisBooks.onBook_fifo_eq_ok.mp h
      exact ⟨_, book, rfl, fifoConsume_available (hs key) hbook⟩
    | restate key d =>
      obtain ⟨r, h⟩ := perform_restate_eq_ok.mp h
      obtain ⟨book, hbook, rfl⟩ := CostBasisBooks.onBook_fifo_eq_ok.mp h
      exact ⟨_, book, rfl, fifoRestate_available hbook⟩
    | transferBasisOut key costBase costLocal =>
      obtain ⟨r, h⟩ := perform_transferBasisOut_eq_ok.mp h
      obtain ⟨book, hbook, rfl⟩ := CostBasisBooks.onBook_fifo_eq_ok.mp h
      exact ⟨_, book, rfl, fifoTransferBasisOut_available hbook ▸ hs key⟩
  | avco a ids =>
    suffices hput : ∃ key book ids', b = .avco (Function.update a key book) ids' ∧
        Storable book.pool.quantity by
      obtain ⟨key, book, ids', rfl, hbook⟩ := hput
      exact (Function.forall_update_iff a (p := fun _ book => Storable book.pool.quantity)).mpr
        ⟨hbook, fun k _ => hs k⟩
    cases call with
    | addBuyLot t =>
      obtain ⟨book, hbook, rfl⟩ := CostBasisBooks.addBuyLot_avco_eq_ok.mp h
      exact ⟨_, book, _, rfl, avcoAddBuyLot_available (hs t.bookKey) hbook⟩
    | consume key q =>
      obtain ⟨r, h⟩ := perform_consume_eq_ok.mp h
      obtain ⟨book, hbook, rfl⟩ := CostBasisBooks.onBook_avco_eq_ok.mp h
      exact ⟨_, book, _, rfl, avcoConsume_available (hs key) hbook⟩
    | restate key d =>
      obtain ⟨r, h⟩ := perform_restate_eq_ok.mp h
      obtain ⟨book, hbook, rfl⟩ := CostBasisBooks.onBook_avco_eq_ok.mp h
      exact ⟨_, book, _, rfl, avcoRestate_available hbook⟩
    | transferBasisOut key costBase costLocal =>
      obtain ⟨r, h⟩ := perform_transferBasisOut_eq_ok.mp h
      obtain ⟨book, hbook, rfl⟩ := CostBasisBooks.onBook_avco_eq_ok.mp h
      exact ⟨_, book, _, rfl, avcoTransferBasisOut_available hbook ▸ hs key⟩

/-- **Available quantities.** Whatever the history, the ledger holds the available quantity of every
book. -/
theorem available_storable (h : run method calls = .ok books) (key : BookKey) :
    Storable (books.availableQuantity key) := by
  refine run_invariant (I := fun books => ∀ key, Storable (books.availableQuantity key)) ?_
    (fun call _ _ _ _ hs hok => perform_available hs hok) h key
  intro key
  cases method <;> exact storable_zero

end LotCall

end LotusCore
