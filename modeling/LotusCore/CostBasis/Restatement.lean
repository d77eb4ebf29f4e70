import LotusCore.CostBasis.Increment
import LotusCore.CostBasis.AverageCostSteps
import LotusCore.CostBasis.FifoRun

/-!
# Restatements and their inverses

A restatement multiplies every quantity of a book by one exact ratio, so the restatement by the
opposite delta multiplies by the inverse ratio and gives every quantity back. Costs do not move; a
FIFO lot derives its unit costs anew, and its open cost from them is the same.

* `LotRestatement.inverse`, `LotRestatement.apply_inverse`: the inverse ratio undoes the ratio.
* `LotRestatement.fromSignedDelta_neg`: the opposite delta has the inverse ratio.
* `restatedLot_inverse`, `restatedSource_inverse`: a lot and a source are given back.
* **`restate_invertible`**: a book is given back, and a refused restatement changes nothing.
-/

namespace LotusCore

open Exec Decimal Ledger

/-! ## Ratios -/

namespace LotRestatement

variable {r : LotRestatement} {q d z : ℚ} {f : String}

theorem apply_iff : r.apply q f = .ok z ↔
    0 ≤ q ∧ Storable q ∧ z = q * r.quantityAfter / r.quantityBefore ∧ Storable z := by
  unfold apply requireNonNegativePersistableQuantity requireExactPersistableQuantity
  constructor
  · intro h
    obtain ⟨a, ha, h⟩ := except_bind_eq_ok.mp h
    split_ifs at ha with hneg hst
    cases ha
    dsimp only at h
    split_ifs at h with hgrid hfit
    cases h
    exact ⟨not_lt.mp hneg, hst, rfl, hfit⟩
  · rintro ⟨hneg, hst, rfl, hfit⟩
    refine except_bind_eq_ok.mpr ⟨q, by rw [if_neg (not_lt.mpr hneg), if_pos hst], ?_⟩
    dsimp only
    rw [if_pos (storable_iff.mp hfit).1, if_pos hfit]

/-- The ratio the other way. -/
def inverse (r : LotRestatement) : LotRestatement where
  quantityBefore := r.quantityAfter
  quantityAfter := r.quantityBefore
  before_pos := r.after_pos
  after_pos := r.before_pos
  before_storable := r.after_storable
  after_storable := r.before_storable
  changes := r.changes.symm

theorem apply_inverse (h : r.apply q f = .ok z) : r.inverse.apply z f = .ok q := by
  obtain ⟨hq0, hq, rfl, hz⟩ := apply_iff.mp h
  have hbefore := r.before_pos
  have hafter := r.after_pos
  refine apply_iff.mpr ⟨by positivity, hz, ?_, hq⟩
  show q = q * r.quantityAfter / r.quantityBefore * r.quantityBefore / r.quantityAfter
  field_simp

theorem fromSignedDelta_iff : fromSignedDelta q d = .ok r ↔
    r.quantityBefore = q ∧ r.quantityAfter = ambientContext.round (q + d) := by
  constructor
  · intro h
    unfold fromSignedDelta new at h
    split at h
    · cases h
    · split at h
      · cases h
      · split_ifs at h
        cases h
        exact ⟨rfl, rfl⟩
  · rintro ⟨rfl, hafter⟩
    obtain ⟨before, after, hb, ha, hbs, has, hne⟩ := r
    dsimp only at hafter ⊢
    unfold fromSignedDelta new
    rw [← hafter]
    have hbefore : requirePositivePersistableQuantity before "quantity_before" = .ok before :=
      requirePositivePersistableQuantity_eq_ok.mpr ⟨rfl, hb, hbs⟩
    have hafter' : requirePositivePersistableQuantity after "quantity_after" = .ok after :=
      requirePositivePersistableQuantity_eq_ok.mpr ⟨rfl, ha, has⟩
    split
    · next e he => rw [hbefore] at he; cases he
    · split
      · next e he => rw [hafter'] at he; cases he
      · rw [dif_neg hne]

end LotRestatement

/-- A sum of ten decimals that the column holds once rounded was not rounded. -/
theorem ambientContext_round_eq {x : ℚ} (hx : OnGrid 10 x)
    (hst : Storable (ambientContext.round x)) : ambientContext.round x = x := by
  by_cases hsmall : |x| < 10 ^ 8
  · exact ambientContext_round_of_storable (storable_iff.mpr ⟨hx, hsmall⟩)
  · -- beyond the column the rounded sum is beyond it too
    have hbound : ambientContext.round (10 ^ 8) = 10 ^ 8 := by decide +kernel
    have habs : (10 : ℚ) ^ 8 ≤ |ambientContext.round x| := by
      rcases le_total 0 x with h0 | h0
      · rw [abs_of_nonneg h0, not_lt] at hsmall
        have hmono := ambientContext.round_mono (by norm_num) hsmall
        rw [hbound] at hmono
        exact hmono.trans (le_abs_self _)
      · rw [abs_of_nonpos h0, not_lt] at hsmall
        have hmono := ambientContext.round_mono (by norm_num) hsmall
        rw [hbound, ambientContext.round_neg] at hmono
        exact hmono.trans (neg_le_abs _)
    exact absurd (storable_iff.mp hst).2 (not_lt.mpr habs)

variable {r : LotRestatement}

theorem LotRestatement.fromSignedDelta_neg {q d : ℚ} (hd : OnGrid 10 d)
    (h : fromSignedDelta q d = .ok r) : fromSignedDelta r.quantityAfter (-d) = .ok r.inverse := by
  obtain ⟨rfl, hafter⟩ := fromSignedDelta_iff.mp h
  have hsum : OnGrid 10 (r.quantityBefore + d) :=
    (storable_iff.mp r.before_storable).1.add hd
  rw [ambientContext_round_eq hsum (hafter ▸ r.after_storable)] at hafter
  refine fromSignedDelta_iff.mpr ⟨rfl, ?_⟩
  have hback : r.quantityAfter + -d = r.quantityBefore := by
    rw [hafter]
    ring
  rw [hback, ambientContext_round_of_storable r.before_storable]
  rfl

/-! ## Lots and sources -/

theorem extendedCost_div_of_nonneg {quantity cost : ℚ} (hcost : Storable cost) (h0 : 0 ≤ quantity)
    (hq : Storable quantity) (hzero : quantity = 0 → cost = 0) :
    extendedCost quantity (workingRound (cost / quantity)) = cost := by
  rcases h0.lt_or_eq with hpos | hnil
  · exact extendedCost_div hcost hpos hq.lt_bound.le
  · rw [← hnil, extendedCost_zero_left, hzero hnil.symm]

variable {lot lot' : CostLot}

theorem restatedLot_eq_ok : restatedLot r lot = .ok lot' ↔ ∃ o q s,
      r.apply lot.originalQuantity "original_quantity" = .ok o ∧
      r.apply lot.remainingQuantity "open_quantity" = .ok q ∧ lot.openState = .ok s ∧
      lot' = { lot with
        originalQuantity := o
        remainingQuantity := q
        costPerShareLocal := workingRound (s.costLocal / q)
        costPerShareBase := workingRound (s.costBase / q) } := by
  unfold restatedLot
  simp only [except_bind_eq_ok, Except.ok.injEq]
  constructor
  · rintro ⟨o, ho, q, hq, s, hs, rfl⟩
    exact ⟨o, q, s, ho, hq, hs, rfl⟩
  · rintro ⟨o, q, s, ho, hq, hs, rfl⟩
    exact ⟨o, ho, q, hq, s, hs, rfl⟩

theorem restatedLot_costs (h : restatedLot r lot = .ok lot') :
    lot'.costLocal = lot.costLocal ∧ lot'.costBase = lot.costBase := by
  obtain ⟨o, q, s, -, hq, hs, rfl⟩ := restatedLot_eq_ok.mp h
  obtain ⟨-, -, hl, hb, hls, hbs⟩ := CostLot.openState_eq_ok.mp hs
  obtain ⟨hq0, -, rfl, hqs⟩ := LotRestatement.apply_iff.mp hq
  have hbefore := r.before_pos
  have hafter := r.after_pos
  have hzero : lot.remainingQuantity * r.quantityAfter / r.quantityBefore = 0 →
      lot.remainingQuantity = 0 := by
    intro h0
    by_contra hne
    have hpos : 0 < lot.remainingQuantity := lt_of_le_of_ne hq0 (Ne.symm hne)
    have hscaled : 0 < lot.remainingQuantity * r.quantityAfter / r.quantityBefore := by positivity
    exact hscaled.ne' h0
  rw [hl, hb]
  constructor
  · refine extendedCost_div_of_nonneg hls (by positivity) hqs fun h0 => ?_
    rw [CostLot.costLocal, hzero h0, extendedCost_zero_left]
  · refine extendedCost_div_of_nonneg hbs (by positivity) hqs fun h0 => ?_
    rw [CostLot.costBase, hzero h0, extendedCost_zero_left]

theorem restatedLot_inverse (h : restatedLot r lot = .ok lot') :
    ∃ back, restatedLot r.inverse lot' = .ok back ∧ lot.SameState back := by
  obtain ⟨hl', hb'⟩ := restatedLot_costs h
  obtain ⟨o, q, s, ho, hq, hs, hlot'⟩ := restatedLot_eq_ok.mp h
  obtain ⟨hso, hsq, hl, hb, hls, hbs⟩ := CostLot.openState_eq_ok.mp hs
  have ho' : lot'.originalQuantity = o := by rw [hlot']
  have hq' : lot'.remainingQuantity = q := by rw [hlot']
  have hid : lot'.transactionId = lot.transactionId := by rw [hlot']
  -- the restated lot has an open state, with the same costs
  obtain ⟨s', hs'⟩ : ∃ s', lot'.openState = .ok s' := by
    obtain ⟨-, -, rfl, -⟩ := LotRestatement.apply_iff.mp ho
    obtain ⟨hq0, -, rfl, -⟩ := LotRestatement.apply_iff.mp hq
    have hbefore := r.before_pos
    have hafter := r.after_pos
    have hle : lot.remainingQuantity ≤ lot.originalQuantity := hso ▸ hsq ▸ s.quantity_le
    exact ⟨⟨_, _, _, _, by positivity, s.costLocal_nonneg, s.costBase_nonneg, by gcongr⟩,
      CostLot.openState_eq_ok.mpr ⟨ho'.symm, hq'.symm, hl.trans hl'.symm, hb.trans hb'.symm,
        hl' ▸ hls, hb' ▸ hbs⟩⟩
  have hback := restatedLot_eq_ok.mpr ⟨lot.originalQuantity, lot.remainingQuantity, s',
    ho' ▸ LotRestatement.apply_inverse ho, hq' ▸ LotRestatement.apply_inverse hq, hs', rfl⟩
  obtain ⟨hlback, hbback⟩ := restatedLot_costs hback
  exact ⟨_, hback, hid, CostLot.openState_congr rfl rfl (hlback.trans hl') (hbback.trans hb')⟩

theorem restatedSource_inverse {c c' : AverageCostSourceContribution}
    (h : restatedSource r c = .ok c') : restatedSource r.inverse c' = .ok c := by
  unfold restatedSource at h ⊢
  simp only [except_bind_eq_ok, Except.ok.injEq] at h ⊢
  obtain ⟨o, ho, q, hq, rfl⟩ := h
  exact ⟨c.originalQuantity, LotRestatement.apply_inverse ho, c.quantity,
    LotRestatement.apply_inverse hq, rfl⟩

/-! ## Books -/

theorem restatedLots_inverse {lots lots' : List CostLot} (h : restatedLots r lots = .ok lots') :
    ∃ back, restatedLots r.inverse lots' = .ok back ∧ List.Forall₂ CostLot.SameState lots back ∧
      lots'.map CostLot.costLocal = lots.map CostLot.costLocal ∧
      lots'.map CostLot.costBase = lots.map CostLot.costBase := by
  unfold restatedLots at h ⊢
  simp only [except_mapM_eq_ok] at h ⊢
  induction h with
  | nil => exact ⟨[], .nil, .nil, rfl, rfl⟩
  | cons hlot _ ih =>
    obtain ⟨back, hback, hsame, hl, hb⟩ := ih
    obtain ⟨first, hfirst, hstate⟩ := restatedLot_inverse hlot
    obtain ⟨hcl, hcb⟩ := restatedLot_costs hlot
    refine ⟨first :: back, .cons hfirst hback, .cons hstate hsame, ?_, ?_⟩
    · rw [List.map_cons, List.map_cons, hcl, hl]
    · rw [List.map_cons, List.map_cons, hcb, hb]

theorem restatedSources_inverse {sources sources' : List AverageCostSourceContribution}
    (h : restatedSources r sources = .ok sources') :
    restatedSources r.inverse sources' = .ok sources := by
  unfold restatedSources at h ⊢
  simp only [except_mapM_eq_ok] at h ⊢
  exact (h.imp fun _ _ hsource => restatedSource_inverse hsource).flip

theorem fifoRestate_neg {d : ℚ} {b b' : FifoBook} (hd : OnGrid 10 d)
    (h : fifoRestate d b = .ok r b') :
    ∃ back, fifoRestate (-d) b' = .ok r.inverse back ∧ back.openLotStates = b.openLotStates ∧
      back.available = b.available ∧ b'.costLocal = b.costLocal ∧ b'.costBase = b.costBase := by
  unfold fifoRestate at h
  simp only [bind_get_eq_ok, bind_liftM_eq_ok, bind_modify_eq_ok, pure_eq_ok] at h
  obtain ⟨r', hr, lots, hlots, rfl, rfl⟩ := h
  obtain ⟨back, hback, hsame, hl, hb⟩ := restatedLots_inverse hlots
  refine ⟨{ b with openLots := back, available := r.quantityBefore }, ?_, ?_, ?_, ?_, ?_⟩
  · unfold fifoRestate
    simp only [bind_get_eq_ok, bind_liftM_eq_ok, bind_modify_eq_ok, pure_eq_ok]
    exact ⟨_, LotRestatement.fromSignedDelta_neg hd hr, back, hback, rfl, rfl⟩
  · rw [openLotStates_eq, openLotStates_eq]
    exact lotStates_congr (List.rel_append (List.forall₂_same.mpr fun _ _ => ⟨rfl, rfl⟩) hsame)
  · exact (LotRestatement.fromSignedDelta_iff.mp hr).1
  · simp only [FifoBook.costLocal, hl]
  · simp only [FifoBook.costBase, hb]

theorem avcoRestate_neg {d : ℚ} {b b' : AvcoBook} (hd : OnGrid 10 d)
    (h : avcoRestate d b = .ok r b') :
    avcoRestate (-d) b' = .ok r.inverse b ∧ b'.pool.costLocal = b.pool.costLocal ∧
      b'.pool.costBase = b.pool.costBase := by
  obtain ⟨hr, poolStart, sources, start, hpool, hsources, hstart, rfl⟩ := avcoRestate_eq_ok.mp h
  refine ⟨avcoRestate_eq_ok.mpr ⟨LotRestatement.fromSignedDelta_neg hd hr,
    b.pool.segmentStartQuantity, b.activeSources, b.segmentStartQuantity,
    LotRestatement.apply_inverse hpool, restatedSources_inverse hsources,
    LotRestatement.apply_inverse hstart, ?_⟩, rfl, rfl⟩
  have hbefore : b.pool.quantity = r.inverse.quantityAfter :=
    (LotRestatement.fromSignedDelta_iff.mp hr).1.symm
  rw [← hbefore]

theorem fifoRestate_eq_error {d : ℚ} {e : Raised} {b b' : FifoBook}
    (h : fifoRestate d b = .error e b') : b' = b := by
  unfold fifoRestate at h
  simp only [bind_get_eq_error, bind_liftM_eq_error, bind_modify_eq_error, pure_eq_error, and_false,
    exists_false, or_false] at h
  rcases h with ⟨-, rfl⟩ | ⟨r, -, -, rfl⟩ <;> rfl

theorem avcoRestate_eq_error {d : ℚ} {e : Raised} {b b' : AvcoBook}
    (h : avcoRestate d b = .error e b') : b' = b := by
  unfold avcoRestate at h
  simp only [bind_get_eq_error, bind_liftM_eq_error,
    bind_eq_error (x := applyQuantityRestatement _),
    bind_modify_eq_error, pure_eq_error, and_false, exists_false, or_false] at h
  rcases h with ⟨-, rfl⟩ | ⟨r, -, ⟨-, rfl⟩ | ⟨start, -, h⟩⟩
  · rfl
  · rfl
  · unfold applyQuantityRestatement at h
    simp only [bind_get_eq_error, bind_liftM_eq_error, modify_eq_error, and_false, exists_false,
      or_false] at h
    rcases h with ⟨-, rfl⟩ | ⟨sources, -, -, rfl⟩ <;> rfl

structure BookTotals where
  quantity : ℚ
  costLocal : ℚ
  costBase : ℚ
  deriving DecidableEq

namespace CostBasisBooks

def totals (books : CostBasisBooks) (key : BookKey) : BookTotals :=
  match books with
  | .fifo f => ⟨(f key).openQuantity, (f key).costLocal, (f key).costBase⟩
  | .avco a _ => ⟨(a key).pool.quantity, (a key).pool.costLocal, (a key).pool.costBase⟩

/-- **Restatements.** A restatement by a delta of ten decimals is undone by the opposite delta:
the states and the quantity of every book are as before, and the costs of the book were the same in
between. A restatement that raises changes no book. -/
theorem restate_invertible (books : CostBasisBooks) (key : BookKey) (d : ℚ) :
    (OnGrid 10 d → ∀ r b, restate key d books = .ok r b →
      (b.totals key).costLocal = (books.totals key).costLocal ∧
      (b.totals key).costBase = (books.totals key).costBase ∧
      ∃ back, restate key (-d) b = .ok r.inverse back ∧ ∀ other,
        back.openLotStates other = books.openLotStates other ∧
          back.availableQuantity other = books.availableQuantity other) ∧
    ∀ e b, restate key d books = .error e b → b = books := by
  refine ⟨fun hd r b h => ?_, fun e b h => ?_⟩
  · cases books with
    | fifo f =>
      obtain ⟨book, hbook, rfl⟩ := onBook_fifo_eq_ok.mp h
      obtain ⟨back, hback, hstates, havailable, hl, hb⟩ := fifoRestate_neg hd hbook
      refine ⟨?_, ?_, .fifo (Function.update f key back), onBook_fifo_eq_ok.mpr ⟨back, ?_, ?_⟩,
        fun other => ?_⟩
      · simpa [totals] using hl
      · simpa [totals] using hb
      · rwa [Function.update_self]
      · rw [Function.update_idem]
      · by_cases hother : other = key
        · subst hother
          simp [openLotStates, availableQuantity, hstates, havailable]
        · simp [openLotStates, availableQuantity, Function.update_of_ne hother]
    | avco a ids =>
      obtain ⟨book, hbook, rfl⟩ := onBook_avco_eq_ok.mp h
      obtain ⟨hback, hl, hb⟩ := avcoRestate_neg hd hbook
      refine ⟨?_, ?_, .avco a ids, onBook_avco_eq_ok.mpr ⟨a key, ?_, ?_⟩, fun other => ⟨rfl, rfl⟩⟩
      · simpa [totals] using hl
      · simpa [totals] using hb
      · rwa [Function.update_self]
      · rw [Function.update_idem, Function.update_eq_self]
  · cases books with
    | fifo f =>
      obtain ⟨book, hbook, rfl⟩ := onBook_fifo_eq_error.mp h
      rw [fifoRestate_eq_error hbook, Function.update_eq_self]
    | avco a ids =>
      obtain ⟨book, hbook, rfl⟩ := onBook_avco_eq_error.mp h
      rw [avcoRestate_eq_error hbook, Function.update_eq_self]

theorem restate_invertible_split :
    ∃ books r b back, addBuyLot (costedBuy "B1" 3 1) (empty .fifo) = .ok () books ∧
      restate ("P", "I") 3 books = .ok r b ∧ restate ("P", "I") (-3) b = .ok r.inverse back ∧
      back.openLotStates ("P", "I") = books.openLotStates ("P", "I") := by
  set lot : CostLot := ⟨"B1", "LOT-B1", 0, 3, 3, workingRound (1 / 3), workingRound (1 / 3)⟩
  set split : CostLot := ⟨"B1", "LOT-B1", 0, 6, 6, workingRound (1 / 6), workingRound (1 / 6)⟩
  obtain ⟨_, hbuy⟩ := stateAfter_eq_ok.mp (show stateAfter (fifoAddBuyLot (costedBuy "B1" 3 1)) {} =
    .ok ⟨[lot], [], 3⟩ by decide +kernel)
  obtain ⟨r, hsplit⟩ := stateAfter_eq_ok.mp (show stateAfter (fifoRestate 3) ⟨[lot], [], 3⟩ =
    .ok ⟨[split], [], 6⟩ by decide +kernel)
  have hbooks : addBuyLot (costedBuy "B1" 3 1) (empty .fifo) =
      .ok () (.fifo (Function.update (fun _ => {}) ("P", "I") ⟨[lot], [], 3⟩)) :=
    addBuyLot_fifo_eq_ok.mpr ⟨_, hbuy, rfl⟩
  have hdone : restate ("P", "I") 3 (.fifo (Function.update (fun _ => {}) ("P", "I")
      ⟨[lot], [], 3⟩)) = .ok r
        (.fifo (Function.update (fun _ => {}) ("P", "I") ⟨[split], [], 6⟩)) :=
    restate_update_eq_ok.mpr ⟨_, hsplit, rfl⟩
  obtain ⟨-, -, back, hback, hstates⟩ :=
    (restate_invertible _ ("P", "I") 3).1 (by decide +kernel) r _ hdone
  exact ⟨_, r, _, back, hbooks, hdone, hback, (hstates ("P", "I")).1⟩

/-- A book with one lot of 1 and a delta of 99999998 and a sliver below the 28 digits of the ambient
context: the restatement to 99999999 completes, the opposite delta misses 1 by the sliver and is
refused. -/
theorem restate_sliver_not_invertible :
    ∃ books r b e b', addBuyLot (costedBuy "B1" 1 1) (empty .fifo) = .ok () books ∧
      restate ("P", "I") (99999998 + 1 / 10 ^ 21) books = .ok r b ∧
      restate ("P", "I") (-(99999998 + 1 / 10 ^ 21)) b = .error e b' := by
  set lot : CostLot := ⟨"B1", "LOT-B1", 0, 1, 1, 1, 1⟩
  set grown : CostLot := ⟨"B1", "LOT-B1", 0, 99999999, 99999999, workingRound (1 / 99999999),
    workingRound (1 / 99999999)⟩
  obtain ⟨_, hbuy⟩ := stateAfter_eq_ok.mp (show stateAfter (fifoAddBuyLot (costedBuy "B1" 1 1)) {} =
    .ok ⟨[lot], [], 1⟩ by decide +kernel)
  obtain ⟨r, hgrow⟩ := stateAfter_eq_ok.mp (show stateAfter
    (fifoRestate (99999998 + 1 / 10 ^ 21)) ⟨[lot], [], 1⟩ = .ok ⟨[grown], [], 99999999⟩ by
      decide +kernel)
  obtain ⟨final, hback⟩ := stateAfter_eq_error.mp (show stateAfter
    (fifoRestate (-(99999998 + 1 / 10 ^ 21))) ⟨[grown], [], 99999999⟩ =
      .error (.lotRestatement "quantity_after exceeds governed quantity precision") by
      decide +kernel)
  refine ⟨_, r, _, .lotRestatement "quantity_after exceeds governed quantity precision", _,
    addBuyLot_fifo_eq_ok.mpr ⟨_, hbuy, rfl⟩, restate_update_eq_ok.mpr ⟨_, hgrow, rfl⟩,
    onBook_fifo_eq_error.mpr ⟨final, ?_, rfl⟩⟩
  rw [Function.update_self]
  exact hback

end CostBasisBooks

end LotusCore
