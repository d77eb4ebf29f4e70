import LotusCore.CostBasis.AverageCost

/-!
# Completed operations on an average-cost book

What each operation of `AverageCostBasisStrategy` leaves in a book when it does not raise.

* `avcoAddBuyLot_eq_ok`: a purchase opens a source beside the pool.
* `applyDisposal_eq_ok`, `avcoConsume_cases`: a sale takes from the pool.
* `applyQuantityRestatement_eq_ok`, `avcoRestate_eq_ok`: a restatement multiplies every quantity.
-/

namespace LotusCore

open Exec Decimal

/-! ## The book -/

section Book

variable {b b' : AvcoBook} {t : CostBasisTransaction} {known : List String}

/-- The book with a source added to the pool `p`. -/
def AvcoBook.withSource (b : AvcoBook) (p : AverageCostPool)
    (c : AverageCostSourceContribution) : AvcoBook :=
  { b with
    pool := p
    activeSources := b.activeSources ++ [c]
    segmentStartScale := b.disposalScale
    segmentStartQuantity := p.quantity }

theorem avcoAddBuyLot_eq_ok {u : Unit} :
    avcoAddBuyLot known t b = .ok u b' ↔
      (validatedBuyLotInputs t = .ok none ∧ b' = b) ∨
      ∃ q c l p o, validatedBuyLotInputs t = .ok (some (q, c, l)) ∧
        AverageCostPool.add q l c b.pool = .ok () p ∧
        resolveSourceLotOriginalQuantity t.sourceLotOriginalQuantity t.sourceLotOrderQuantity q =
          .ok o ∧
        t.transactionId ∉ known ∧ b' = b.withSource p (b.newSource t q o l c) := by
  unfold avcoAddBuyLot
  rw [bind_liftM_eq_ok]
  constructor
  · rintro ⟨inputs, hin, h⟩
    rcases inputs with _ | ⟨q, c, l⟩
    · obtain ⟨-, rfl⟩ := pure_eq_ok.mp h
      exact .inl ⟨hin, rfl⟩
    · obtain ⟨_, b₁, hpool, h⟩ := bind_eq_ok.mp h
      obtain ⟨p, hp, rfl⟩ := zoom_eq_ok.mp hpool
      obtain ⟨o, ho, h⟩ := bind_liftM_eq_ok.mp h
      rw [bind_get_eq_ok] at h
      unfold addSource at h
      by_cases hknown : t.transactionId ∈ known
      · simp only [hknown, if_true] at h
        obtain ⟨_, _, hthrow, _⟩ := bind_eq_ok.mp h
        exact (throw_eq_ok.mp hthrow).elim
      · simp only [hknown, if_false] at h
        exact .inr ⟨q, c, l, p, o, hin, hp, ho, hknown, modify_eq_ok.mp h⟩
  · rintro (⟨hin, rfl⟩ | ⟨q, c, l, p, o, hin, hp, ho, hknown, rfl⟩)
    · exact ⟨none, hin, pure_eq_ok.mpr ⟨rfl, rfl⟩⟩
    · refine ⟨some (q, c, l), hin, ?_⟩
      refine bind_eq_ok.mpr ⟨(), _, zoom_eq_ok.mpr ⟨p, hp, rfl⟩, ?_⟩
      refine bind_liftM_eq_ok.mpr ⟨o, ho, ?_⟩
      rw [bind_get_eq_ok]
      unfold addSource
      simp only [hknown, if_false]
      exact modify_eq_ok.mpr rfl

/-- The book after a disposal from the pool: scaled, or reopened if nothing is left. -/
def AvcoBook.afterDisposal (b : AvcoBook) (p : AverageCostPool) : AvcoBook :=
  if p.quantity = 0 then { b with pool := p }.reopened
  else { b with
    pool := p
    disposalScale :=
      workingRound (workingRound (b.segmentStartScale * p.quantity) / b.segmentStartQuantity) }

theorem applyDisposal_eq_ok {before after : ℚ} {u : Unit} :
    applyDisposal before after b = .ok u b' ↔
      0 < before ∧ 0 ≤ after ∧ after ≤ before ∧
        ((after = 0 ∧ b' = b.reopened) ∨ (after ≠ 0 ∧ 0 < b.segmentStartQuantity ∧ b' = { b with
          disposalScale :=
            workingRound
              (workingRound (b.segmentStartScale * after) / b.segmentStartQuantity) })) := by
  unfold applyDisposal
  rw [bind_get_eq_ok]
  by_cases h1 : before ≤ 0
  · simp only [h1, if_true, throw_eq_ok, false_iff]
    exact fun h => absurd h.1 (not_lt.mpr h1)
  by_cases h2 : after < 0 ∨ before < after
  · simp only [h1, h2, if_true, if_false, throw_eq_ok, false_iff]
    rintro ⟨-, h3, h4, -⟩
    exact h2.elim (not_lt.mpr h3) (not_lt.mpr h4)
  have h2' := not_or.mp h2
  by_cases h3 : after = 0
  · rw [if_neg h1, if_neg h2, if_pos h3, modify_eq_ok]
    simp [h3, not_le.mp h1, (not_le.mp h1).le]
  by_cases h4 : b.segmentStartQuantity ≤ 0
  · simp [h1, h2, h3, h4, throw_eq_ok, not_lt.mpr h4]
  · simp [h1, h2, h3, h4, modify_eq_ok, not_le.mp h1, not_le.mp h4, not_lt.mp h2'.1,
      not_lt.mp h2'.2]

theorem avcoConsume_cases {q : ℚ} {r : LotDisposalResult} (h : avcoConsume q b = .ok r b') :
    (b' = b ∧ (q = 0 ∧ r = .empty ∨ ∃ reason, r = .failed reason)) ∨
    (0 < q ∧ q ≤ b.pool.quantity ∧ ∃ before after cost p disposals allocations,
      b.materializeBook = .ok before ∧ AverageCostPool.dispose q b.pool = .ok cost p ∧
      b' = b.afterDisposal p ∧ 0 ≤ p.quantity ∧
      (p.quantity ≠ 0 → 0 < b.segmentStartQuantity) ∧ b'.materializeBook = .ok after ∧
      sourceDisposals b.activeSources before after = .ok disposals ∧
      reconcileDisposalAllocationResiduals disposals cost.1 cost.2 q = .ok allocations ∧
      LotDisposalResult.new cost.1 cost.2 q allocations = .ok r) := by
  unfold avcoConsume at h
  rw [bind_get_eq_ok] at h
  by_cases hneg : 0 ≤ q
  · rw [nonPositiveSellQuantityError, if_pos hneg] at h
    dsimp only at h
    split_ifs at h with h1 h2 h3
    · obtain ⟨rfl, rfl⟩ := pure_eq_ok.mp h
      exact .inl ⟨rfl, .inr ⟨_, rfl⟩⟩
    · obtain ⟨rfl, rfl⟩ := pure_eq_ok.mp h
      exact .inl ⟨rfl, .inr ⟨_, rfl⟩⟩
    · obtain ⟨rfl, rfl⟩ := pure_eq_ok.mp h
      exact .inl ⟨rfl, .inl ⟨h3, rfl⟩⟩
    · refine .inr ⟨lt_of_le_of_ne hneg (Ne.symm h3), not_lt.mp h1, ?_⟩
      obtain ⟨before, hbefore, h⟩ := bind_liftM_eq_ok.mp h
      obtain ⟨⟨cb, cl⟩, b₁, hpool, h⟩ := bind_eq_ok.mp h
      obtain ⟨p, hp, rfl⟩ := zoom_eq_ok.mp hpool
      rw [bind_get_eq_ok] at h
      obtain ⟨_, b₂, hdisposal, h⟩ := bind_eq_ok.mp h
      simp only [bind_get_eq_ok, bind_liftM_eq_ok, liftM_eq_ok] at h
      obtain ⟨after, hafter, disposals, hd, allocations, ha, hnew, rfl⟩ := h
      obtain ⟨-, h0, -, hcase⟩ := applyDisposal_eq_ok.mp hdisposal
      refine ⟨before, after, (cb, cl), p, disposals, allocations, hbefore, hp, ?_, h0, ?_, hafter,
        hd, ha, hnew⟩
      · rcases hcase with ⟨hzero, rfl⟩ | ⟨hne, -, rfl⟩
        · rw [AvcoBook.afterDisposal, if_pos hzero]
        · rw [AvcoBook.afterDisposal, if_neg hne]
      · intro hne
        rcases hcase with ⟨hzero, -⟩ | ⟨-, hpos, -⟩
        · exact absurd hzero hne
        · exact hpos
  · rw [nonPositiveSellQuantityError, if_neg hneg] at h
    obtain ⟨rfl, rfl⟩ := pure_eq_ok.mp h
    exact .inl ⟨rfl, .inr ⟨_, rfl⟩⟩

theorem applyQuantityRestatement_eq_ok {r : LotRestatement} {u : Unit} :
    applyQuantityRestatement r b = .ok u b' ↔
      ∃ sources start, restatedSources r b.activeSources = .ok sources ∧
        r.apply b.segmentStartQuantity "source_allocation_segment_start_quantity" = .ok start ∧
        b' = { b with activeSources := sources, segmentStartQuantity := start } := by
  unfold applyQuantityRestatement
  simp only [bind_get_eq_ok, bind_liftM_eq_ok, modify_eq_ok]
  constructor
  · rintro ⟨sources, hsources, start, hstart, rfl⟩
    exact ⟨sources, start, hsources, hstart, rfl⟩
  · rintro ⟨sources, start, hsources, hstart, rfl⟩
    exact ⟨sources, hsources, start, hstart, rfl⟩

theorem avcoRestate_eq_ok {delta : ℚ} {r : LotRestatement} :
    avcoRestate delta b = .ok r b' ↔
      LotRestatement.fromSignedDelta b.pool.quantity delta = .ok r ∧
      ∃ poolStart sources start,
        r.apply b.pool.segmentStartQuantity "segment_start_quantity" = .ok poolStart ∧
        restatedSources r b.activeSources = .ok sources ∧
        r.apply b.segmentStartQuantity "source_allocation_segment_start_quantity" = .ok start ∧
        b' = { b with
          activeSources := sources
          segmentStartQuantity := start
          pool := { b.pool with
            quantity := r.quantityAfter
            segmentStartQuantity := poolStart } } := by
  unfold avcoRestate
  rw [bind_get_eq_ok, bind_liftM_eq_ok]
  constructor
  · rintro ⟨r', hr, h⟩
    obtain ⟨poolStart, hpool, h⟩ := bind_liftM_eq_ok.mp h
    obtain ⟨_, b₁, happly, h⟩ := bind_eq_ok.mp h
    obtain ⟨sources, start, hsources, hstart, rfl⟩ := applyQuantityRestatement_eq_ok.mp happly
    rw [bind_modify_eq_ok] at h
    obtain ⟨rfl, rfl⟩ := pure_eq_ok.mp h
    exact ⟨hr, poolStart, sources, start, hpool, hsources, hstart, rfl⟩
  · rintro ⟨hr, poolStart, sources, start, hpool, hsources, hstart, rfl⟩
    refine ⟨r, hr, bind_liftM_eq_ok.mpr ⟨poolStart, hpool, ?_⟩⟩
    refine bind_eq_ok.mpr ⟨(), _,
      applyQuantityRestatement_eq_ok.mpr ⟨sources, start, hsources, hstart, rfl⟩, ?_⟩
    rw [bind_modify_eq_ok]
    exact pure_eq_ok.mpr ⟨rfl, rfl⟩

end Book

end LotusCore
