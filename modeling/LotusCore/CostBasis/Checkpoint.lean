import LotusCore.CostBasis.Increment
import LotusCore.Data.Cover
import LotusCore.Data.Ordered

/-!
# The processing checkpoint

After a calculation the latest transaction, as calculated, is kept as the checkpoint of the stream.
A further transaction is appended without a rebuild if it sorts after the checkpoint.

* `Calculated`: what a calculation leaves of a booked transaction.
* **`processTransactions_perm`**, **`processTransactions_accounts`**: a history can arrive in any
  order, and no transaction of it is lost.
* `CostBasisProcessingCheckpoint`, `processingCheckpoint`, `permitsAppend`: the checkpoint and its
  admission rule.
* `InQuantityGap`: a transaction that sorts after a redemption as calculated, but not as booked.
* **`permitsAppend_sound_iff`**: an admitted transaction sorts after every booked one, unless it is
  in such a gap.
-/

namespace LotusCore

open Exec List

/-! ## Calculated transactions -/

/-- The booked fields stay, and so does the quantity of everything but a redemption. -/
structure Calculated (t t' : CostBasisTransaction) : Prop where
  booking : t'.booking = t.booking
  quantity : t.transactionType.isRedemption = false → t'.quantity = t.quantity

theorem Calculated.read_eq {β : Type} {g : CostBasisTransaction → β} {t t' : CostBasisTransaction}
    (hg : ∀ x, g x.booking = g x) (h : Calculated t t') : g t' = g t := by
  rw [← hg t', h.booking, hg]

theorem calculateTransaction_calculated (s : TimelineState) (t : CostBasisTransaction) :
    Calculated t (calculateTransaction s t).2.1 := by
  have hfinal : (calculateTransaction s t).2.1 =
      (finalState (calculateTransactionCosts ⟨t, s.engine, s.errors⟩)).transaction := by
    unfold calculateTransaction finalState
    cases calculateTransactionCosts ⟨t, s.engine, s.errors⟩ <;> rfl
  rw [hfinal]
  constructor
  · exact (calculateTransactionCosts_booking ⟨t, s.engine, s.errors⟩).transaction
  · intro hred
    have hbooked := calculateTransactionCosts_booked (s := ⟨t, s.engine, s.errors⟩) hred
    have hq := congrArg CostBasisTransaction.quantity hbooked
    exact hq

theorem processSortedTimeline_calculated {s : TimelineState} {timeline : List CostBasisTransaction}
    (h : (processSortedTimeline s timeline).1.errors = []) :
    List.Forall₂ Calculated timeline (processSortedTimeline s timeline).2 := by
  induction timeline generalizing s with
  | nil => exact .nil
  | cons t timeline ih =>
    obtain ⟨s', t', hrun, heq⟩ := processSortedTimeline_cons_of_accepted h
    have hcalc := calculateTransaction_calculated s t
    rw [hrun] at hcalc
    rw [heq] at h ⊢
    exact .cons hcalc (ih h)

theorem processTransactions_of_accepted {method : CostBasisMethod} {l : List CostBasisTransaction}
    (hparsed : ∀ t ∈ l, t.errorReason.getD "" = "")
    (h : (processTransactions method [] l).errored = []) :
    (processSortedTimeline (.start method) (sortTransactions [] l)).1.errors = [] ∧
      processTransactions method [] l = timelineResult
        (processSortedTimeline (.start method) (sortTransactions [] l)).1
        (processSortedTimeline (.start method) (sortTransactions [] l)).2 := by
  have hvalid : validTransactions l = l :=
    filter_eq_self.mpr fun t ht => by simpa using hparsed t ht
  have hresult : processTransactions method [] l = timelineResult
      (processSortedTimeline (.start method) (sortTransactions [] l)).1
      ((processSortedTimeline (.start method) (sortTransactions [] l)).2.filter
        fun t => t.transactionId ∈ l.map (·.transactionId)) := by
    simp only [processTransactions, nil_append, hvalid]
  have herr : (processSortedTimeline (.start method) (sortTransactions [] l)).1.errors = [] := by
    rw [hresult] at h
    exact h
  have hall := processSortedTimeline_calculated herr
  refine ⟨herr, ?_⟩
  rw [hresult, filter_eq_self.mpr]
  intro t' ht'
  obtain ⟨i, hi, rfl⟩ := getElem_of_mem ht'
  have hi' : i < (sortTransactions [] l).length := hall.length_eq ▸ hi
  have hid := (hall.get hi' hi).read_eq (g := fun t => t.transactionId) fun _ => rfl
  have hmem : (sortTransactions [] l)[i] ∈ l :=
    (perm_insertionSort _ _).subset (getElem_mem hi')
  simp only [get_eq_getElem] at hid
  simp only [hid, decide_eq_true_eq]
  exact mem_map_of_mem hmem

theorem processTransactions_calculated {method : CostBasisMethod} {l : List CostBasisTransaction}
    (hparsed : ∀ t ∈ l, t.errorReason.getD "" = "")
    (h : (processTransactions method [] l).errored = []) :
    List.Forall₂ Calculated (sortTransactions [] l)
      (processTransactions method [] l).processed := by
  obtain ⟨herr, hresult⟩ := processTransactions_of_accepted hparsed h
  rw [hresult]
  exact processSortedTimeline_calculated herr

/-! ## Whole histories -/

section Histories

variable {existing new : List CostBasisTransaction} {t : CostBasisTransaction}

theorem validTransactions_eq_self {l : List CostBasisTransaction}
    (hparsed : ∀ t ∈ l, t.errorReason.getD "" = "") : validTransactions l = l :=
  filter_eq_self.mpr fun t ht => decide_eq_true (hparsed t ht)

theorem nodup_transactionOrderKey {l : List CostBasisTransaction}
    (hids : (l.map (·.transactionId)).Nodup) : (l.map transactionOrderKey).Nodup := by
  -- the id is the last component of the key
  refine List.Nodup.of_map (fun k : TransactionOrderKey =>
    (ofLex (ofLex (ofLex (ofLex (ofLex (ofLex k).2).2).2).2).2).2) ?_
  rw [map_map]
  exact hids

/-- **Arrival order.** The result of a calculation does not depend on the order in which the
transactions of a history with distinct ids arrive, errors and evidence included. -/
theorem processTransactions_perm (method : CostBasisMethod)
    (hparsed : ∀ t ∈ existing ++ new, t.errorReason.getD "" = "")
    (hids : ((existing ++ new).map (·.transactionId)).Nodup)
    {existing' new' : List CostBasisTransaction} (hexisting : existing.Perm existing')
    (hnew : new.Perm new') :
    processTransactions method existing new = processTransactions method existing' new' := by
  have hall := hexisting.append hnew
  have hparsed' : ∀ t ∈ existing' ++ new', t.errorReason.getD "" = "" :=
    fun t ht => hparsed t (hall.mem_iff.mpr ht)
  have hsorted : sortTransactions [] (existing ++ new) =
      sortTransactions [] (existing' ++ new') := by
    rw [← append_nil (existing' ++ new')] at hall
    simpa [sortTransactions] using
      Cover.insertionSort_of_perm_append hall (nodup_transactionOrderKey hids) (by simp)
  have hnewIds : ∀ id, id ∈ (validTransactions new).map (·.transactionId) ↔
      id ∈ (validTransactions new').map (·.transactionId) := fun id =>
    ((hnew.filter _).map _).mem_iff
  simp only [processTransactions, validTransactions_eq_self hparsed,
    validTransactions_eq_self hparsed', hsorted, hnewIds]

theorem processTransactions_perm_trades :
    processTransactions .fifo [] [bookedTrade "a" .buy 0 1 10, bookedTrade "b" .sell 1 1 12] =
      processTransactions .fifo [] [bookedTrade "b" .sell 1 1 12, bookedTrade "a" .buy 0 1 10] :=
  processTransactions_perm .fifo (by decide) (by decide) .nil (.swap _ _ _)

theorem processSortedTimeline_accounts {s : TimelineState} {timeline : List CostBasisTransaction}
    (ht : t ∈ timeline) :
    (∃ p ∈ (processSortedTimeline s timeline).2, p.transactionId = t.transactionId) ∨
      (processSortedTimeline s timeline).1.errors.hasErrorsFor t.transactionId := by
  induction timeline generalizing s with
  | nil => cases ht
  | cons u timeline ih =>
    have hid : (calculateTransaction s u).2.1.transactionId = u.transactionId :=
      (calculateTransaction_calculated s u).read_eq (g := fun t => t.transactionId) fun _ => rfl
    have herror := hasErrorsFor_of_calculateTransaction_eq_false (s := s) (t := u)
    rcases hrun : calculateTransaction s u with ⟨s', u', accepted⟩
    rw [hrun] at hid herror
    simp only [processSortedTimeline, hrun]
    rcases mem_cons.mp ht with rfl | ht
    · cases accepted with
      | true => exact .inl ⟨u', by simp, hid⟩
      | false => exact .inr (processSortedTimeline_keeps_errors timeline (herror rfl))
    · refine (ih ht).imp_left ?_
      rintro ⟨p, hp, hpid⟩
      refine ⟨p, ?_, hpid⟩
      split_ifs
      · exact mem_cons_of_mem _ hp
      · exact hp

/-- **No transaction is lost.** Every new transaction is returned as calculated, or an error is
recorded for it. -/
theorem processTransactions_accounts (method : CostBasisMethod)
    (hparsed : ∀ t ∈ existing ++ new, t.errorReason.getD "" = "") (ht : t ∈ new) :
    (∃ p ∈ (processTransactions method existing new).processed,
      p.transactionId = t.transactionId) ∨
    (processTransactions method existing new).errored.hasErrorsFor t.transactionId := by
  have hnew := validTransactions_eq_self fun t ht => hparsed t (mem_append_right _ ht)
  have hsorted : t ∈ sortTransactions [] (validTransactions (existing ++ new)) := by
    rw [validTransactions_eq_self hparsed]
    exact (mem_insertionSort _).mpr (mem_append_right [] (mem_append_right _ ht))
  refine (processSortedTimeline_accounts (s := .start method) hsorted).imp_left ?_
  rintro ⟨p, hp, hid⟩
  refine ⟨p, mem_filter.mpr ⟨hp, decide_eq_true ?_⟩, hid⟩
  rw [hnew, hid]
  exact mem_map_of_mem ht

theorem processTransactions_accounts_oversold :
    (processTransactions .fifo [] [bookedTrade "b" .sell 1 1 12]).errored.hasErrorsFor "b" := by
  have hnone : (processTransactions .fifo [] [bookedTrade "b" .sell 1 1 12]).processed = [] :=
    isEmpty_iff.mp (by decide +kernel)
  have hsale : ∀ t ∈ [] ++ [bookedTrade "b" .sell 1 1 12], t.errorReason.getD "" = "" := by decide
  rcases processTransactions_accounts .fifo hsale mem_cons_self with ⟨p, hp, -⟩ | h
  · rw [hnone] at hp
    cases hp
  · exact h

end Histories

/-! ## The checkpoint -/

/-- `COST_BASIS_STATE_VERSION`. -/
def costBasisStateVersion : String := "open-lot-v1"

structure CostBasisProcessingCheckpoint where
  portfolioId : String
  securityId : String
  costBasisMethod : CostBasisMethod
  latestTransactionDate : ℤ
  latestDependencyRank : ℤ
  latestCashDependencyRank : ℤ
  latestChildSequence : ℤ
  latestTargetInstrumentId : String
  latestQuantity : ℚ
  latestTransactionId : String
  calculationStateVersion : String := costBasisStateVersion
  quantity_nonneg : 0 ≤ latestQuantity

namespace CostBasisProcessingCheckpoint

/-- `from_transaction`: the components of the order key, but the quantity the transaction has
now. -/
def fromTransaction (t : CostBasisTransaction) (method : CostBasisMethod) :
    Except Raised CostBasisProcessingCheckpoint :=
  if h : 0 ≤ t.quantity then
    .ok {
      portfolioId := t.portfolioId
      securityId := t.securityId
      costBasisMethod := method
      latestTransactionDate := t.transactionDate
      latestDependencyRank := t.transactionType.dependencyRank
      latestCashDependencyRank := t.cashDependencyRank
      latestChildSequence := t.targetSequence
      latestTargetInstrumentId := t.targetInstrumentId.getD ""
      latestQuantity := t.quantity
      latestTransactionId := t.transactionId
      quantity_nonneg := h }
  else .error (.valueError "Latest cost-basis quantity must be nonnegative")

def orderKey (c : CostBasisProcessingCheckpoint) : TransactionOrderKey :=
  toLex (c.latestTransactionDate, toLex (c.latestDependencyRank,
    toLex (c.latestCashDependencyRank, toLex (c.latestChildSequence,
      toLex (c.latestTargetInstrumentId,
        toLex (ambientContext.round (-c.latestQuantity), c.latestTransactionId))))))

def permitsAppend (c : CostBasisProcessingCheckpoint) (t : CostBasisTransaction)
    (method : CostBasisMethod) : Bool :=
  c.calculationStateVersion == costBasisStateVersion && c.costBasisMethod == method &&
    t.portfolioId == c.portfolioId && t.securityId == c.securityId &&
    decide (c.orderKey < transactionOrderKey t)

end CostBasisProcessingCheckpoint

/-- `_processing_checkpoint`: the first of the latest processed transactions. -/
def processingCheckpoint (processed : List CostBasisTransaction) (method : CostBasisMethod) :
    Except Raised CostBasisProcessingCheckpoint :=
  match Ordered.latest transactionOrderKey processed with
  | some latest => CostBasisProcessingCheckpoint.fromTransaction latest method
  | none => .error (.valueError "max() iterable argument is empty")

/-- The components of the order key before quantity and identity. -/
def CostBasisTransaction.orderGroup (t : CostBasisTransaction) : ℤ × ℤ × ℤ × ℤ × String :=
  (t.transactionDate, t.transactionType.dependencyRank, t.cashDependencyRank, t.targetSequence,
    t.targetInstrumentId.getD "")

/-- The components that order the transactions of one group. -/
def CostBasisTransaction.tieKey (t : CostBasisTransaction) : ℚ ×ₗ String :=
  toLex (ambientContext.round (-t.orderQuantity), t.transactionId)

/-- `t` sorts after the redemption `x` as calculated, with the larger quantity of `x'`, but not
after `x` as booked. -/
structure InQuantityGap (x x' t : CostBasisTransaction) : Prop where
  redemption : x.transactionType.isRedemption = true
  resolved : x.quantity < x'.quantity
  group : t.orderGroup = x.orderGroup
  after : x'.tieKey < t.tieKey
  before : t.tieKey ≤ x.tieKey

structure BookedStream (portfolioId securityId : String) (l : List CostBasisTransaction) :
    Prop where
  parsed : ∀ x ∈ l, x.errorReason.getD "" = ""
  booked : ∀ x ∈ l, x.sourceLotOrderQuantity = none
  portfolio : ∀ x ∈ l, x.portfolioId = portfolioId
  security : ∀ x ∈ l, x.securityId = securityId

/-! ## Order keys -/

section Keys

variable {α β : Type} [LinearOrder α] [LinearOrder β] {a c : α} {b b' d : β}

/-- A pair between two pairs with one first component has that component. -/
theorem lex_between (h₁ : toLex (a, b) < toLex (c, d)) (h₂ : toLex (c, d) ≤ toLex (a, b')) :
    c = a ∧ b < d ∧ d ≤ b' := by
  rw [Prod.Lex.toLex_lt_toLex] at h₁
  rw [Prod.Lex.toLex_le_toLex] at h₂
  rcases h₁ with h₁ | ⟨rfl, h₁⟩
  · rcases h₂ with h₂ | ⟨rfl, -⟩
    · exact absurd h₂ h₁.asymm
    · exact absurd h₁ (lt_irrefl _)
  · rcases h₂ with h₂ | ⟨-, h₂⟩
    · exact absurd h₂ (lt_irrefl _)
    · exact ⟨rfl, h₁, h₂⟩

theorem lex_le_same : toLex (a, b) ≤ toLex (a, b') ↔ b ≤ b' := by
  rw [Prod.Lex.toLex_le_toLex]
  simp

end Keys

section Order

variable {x x' t : CostBasisTransaction}

theorem transactionOrderKey_le_of_group (hgroup : t.orderGroup = x.orderGroup)
    (htie : t.tieKey ≤ x.tieKey) : transactionOrderKey t ≤ transactionOrderKey x := by
  simp only [CostBasisTransaction.orderGroup, Prod.mk.injEq] at hgroup
  obtain ⟨h1, h2, h3, h4, h5⟩ := hgroup
  unfold transactionOrderKey
  rw [h1, h2, h3, h4, h5]
  simp only [lex_le_same]
  exact htie

theorem Calculated.inQuantityGap (h : Calculated x x') (hbooked : x.sourceLotOrderQuantity = none)
    (hafter : transactionOrderKey x' < transactionOrderKey t)
    (hbefore : transactionOrderKey t ≤ transactionOrderKey x) : InQuantityGap x x' t := by
  have hgroup : x'.orderGroup = x.orderGroup := h.read_eq fun _ => rfl
  have hid : x'.transactionId = x.transactionId := h.read_eq (g := (·.transactionId)) fun _ => rfl
  have hnone : x'.sourceLotOrderQuantity = none :=
    (h.read_eq (g := (·.sourceLotOrderQuantity)) fun _ => rfl).trans hbooked
  simp only [CostBasisTransaction.orderGroup, Prod.mk.injEq] at hgroup
  obtain ⟨g1, g2, g3, g4, g5⟩ := hgroup
  unfold transactionOrderKey at hafter hbefore
  rw [g1, g2, g3, g4, g5] at hafter
  obtain ⟨h1, hafter, hbefore⟩ := lex_between hafter hbefore
  obtain ⟨h2, hafter, hbefore⟩ := lex_between hafter hbefore
  obtain ⟨h3, hafter, hbefore⟩ := lex_between hafter hbefore
  obtain ⟨h4, hafter, hbefore⟩ := lex_between hafter hbefore
  obtain ⟨h5, hafter, hbefore⟩ := lex_between hafter hbefore
  have hq : x.quantity < x'.quantity := by
    have hlt := hafter.trans_le hbefore
    rw [Prod.Lex.toLex_lt_toLex, hid] at hlt
    by_contra hle
    refine absurd (ambientContext.round_monotone (neg_le_neg (not_lt.mp hle))) (not_le.mpr ?_)
    simpa [CostBasisTransaction.orderQuantity, hnone, hbooked] using hlt
  refine ⟨?_, hq, ?_, hafter, hbefore⟩
  · by_contra hred
    exact hq.ne (h.quantity (by simpa using hred)).symm
  · simp only [CostBasisTransaction.orderGroup, h1, h2, h3, h4, h5]

end Order

/-! ## Admission -/

section Admission

variable {portfolioId securityId : String} {method : CostBasisMethod}
  {l : List CostBasisTransaction} {t : CostBasisTransaction} {c : CostBasisProcessingCheckpoint}

theorem permitsAppend_iff {processed : List CostBasisTransaction}
    (hp : BookedStream portfolioId securityId processed)
    (hc : processingCheckpoint processed method = .ok c)
    (ht : t.portfolioId = portfolioId ∧ t.securityId = securityId) :
    c.permitsAppend t method = true ↔
      ∀ y ∈ processed, transactionOrderKey y < transactionOrderKey t := by
  unfold processingCheckpoint at hc
  cases hmax : Ordered.latest transactionOrderKey processed with
  | none =>
    rw [hmax] at hc
    cases hc
  | some latest =>
    rw [hmax] at hc
    have hmem : latest ∈ processed := Ordered.latest_mem hmax
    have hkey : c.orderKey = transactionOrderKey latest ∧ c.portfolioId = portfolioId ∧
        c.securityId = securityId ∧ c.costBasisMethod = method ∧
        c.calculationStateVersion = costBasisStateVersion := by
      simp only [CostBasisProcessingCheckpoint.fromTransaction] at hc
      split_ifs at hc
      cases hc
      refine ⟨?_, hp.portfolio latest hmem, hp.security latest hmem, rfl, rfl⟩
      unfold transactionOrderKey CostBasisTransaction.orderQuantity
      rw [hp.booked latest hmem]
      rfl
    obtain ⟨hkey, hportfolio, hsecurity, hmethod, hversion⟩ := hkey
    have hpermits : c.permitsAppend t method = true ↔
        transactionOrderKey latest < transactionOrderKey t := by
      simp [CostBasisProcessingCheckpoint.permitsAppend, hkey, hportfolio, hsecurity, hmethod,
        hversion, ht.1, ht.2]
    rw [hpermits]
    constructor
    · intro hlt y hy
      exact (Ordered.le_latest hmax hy).trans_lt hlt
    · intro hall
      exact hall latest hmem

theorem Calculated.bookedStream {l' : List CostBasisTransaction}
    (h : BookedStream portfolioId securityId l) (hcalc : List.Forall₂ Calculated l l') :
    BookedStream portfolioId securityId l' := by
  have horigin : ∀ y ∈ l', ∃ x ∈ l, Calculated x y := by
    intro y hy
    obtain ⟨i, hi, rfl⟩ := getElem_of_mem hy
    have hi' : i < l.length := hcalc.length_eq ▸ hi
    exact ⟨l[i], getElem_mem hi', hcalc.get hi' hi⟩
  constructor
  · intro y hy
    obtain ⟨x, hx, hxy⟩ := horigin y hy
    exact (hxy.read_eq (g := fun t => t.errorReason.getD "") fun _ => rfl).trans (h.parsed x hx)
  · intro y hy
    obtain ⟨x, hx, hxy⟩ := horigin y hy
    exact (hxy.read_eq (g := (·.sourceLotOrderQuantity)) fun _ => rfl).trans (h.booked x hx)
  · intro y hy
    obtain ⟨x, hx, hxy⟩ := horigin y hy
    exact (hxy.read_eq (g := (·.portfolioId)) fun _ => rfl).trans (h.portfolio x hx)
  · intro y hy
    obtain ⟨x, hx, hxy⟩ := horigin y hy
    exact (hxy.read_eq (g := (·.securityId)) fun _ => rfl).trans (h.security x hx)

/-- **When an append is safe.** A permitted transaction sorts after the whole booked stream exactly
unless it falls between a redemption as booked and the same redemption with its resolved quantity,
with nothing processed at or after it. -/
theorem permitsAppend_sound_iff (hl : BookedStream portfolioId securityId l)
    (hacc : (processTransactions method [] l).errored = [])
    (hc : processingCheckpoint (processTransactions method [] l).processed method = .ok c)
    (ht : t.portfolioId = portfolioId ∧ t.securityId = securityId) :
    (c.permitsAppend t method = true →
      ∀ x ∈ l, transactionOrderKey x < transactionOrderKey t) ↔
    ∀ p ∈ (sortTransactions [] l).zip (processTransactions method [] l).processed,
      InQuantityGap p.1 p.2 t →
        ∃ y ∈ (processTransactions method [] l).processed,
          transactionOrderKey t ≤ transactionOrderKey y := by
  have hperm : (sortTransactions [] l).Perm l := perm_insertionSort _ _
  have hcalc := processTransactions_calculated hl.parsed hacc
  have hsorted : BookedStream portfolioId securityId (sortTransactions [] l) :=
    ⟨fun x hx => hl.parsed x (hperm.subset hx), fun x hx => hl.booked x (hperm.subset hx),
      fun x hx => hl.portfolio x (hperm.subset hx), fun x hx => hl.security x (hperm.subset hx)⟩
  rw [permitsAppend_iff (Calculated.bookedStream hsorted hcalc) hc ht]
  constructor
  · intro hsound p hp hgap
    by_contra hnone
    push Not at hnone
    have hx : p.1 ∈ l := hperm.subset (of_mem_zip hp).1
    exact absurd (hsound hnone p.1 hx)
      (not_lt.mpr (transactionOrderKey_le_of_group hgap.group hgap.before))
  · intro hgaps hlt x hx
    by_contra hle
    obtain ⟨i, hi, rfl⟩ := getElem_of_mem (hperm.symm.subset hx)
    have hi' : i < (processTransactions method [] l).processed.length := hcalc.length_eq ▸ hi
    have hgap := (hcalc.get hi hi').inQuantityGap (t := t) (hl.booked _ hx)
      (hlt _ (getElem_mem hi')) (not_lt.mp hle)
    have hzip : ((sortTransactions [] l)[i], (processTransactions method [] l).processed[i]) ∈
        (sortTransactions [] l).zip (processTransactions method [] l).processed := by
      rw [← getElem_zip (h := by simpa using ⟨hi, hi'⟩)]
      exact getElem_mem _
    obtain ⟨y, hy, hty⟩ := hgaps _ hzip hgap
    exact absurd (hlt y hy) (not_lt.mpr hty)

end Admission

/-- The redemption of half of a bond position, booked by its factors alone. -/
def factorRedemption : CostBasisTransaction :=
  { bookedTrade "R" .partialRedemption 1 0 50 with
    productType := some "BOND"
    settlementDate := some 1
    price := 1
    oldFactor := some 1
    newFactor := some (1 / 2) }

/-- After the purchase and the redemption of a bond, a sale on a later day is admitted and sorts
after both. -/
theorem permitsAppend_sound_later :
    ∃ c, processingCheckpoint (processTransactions .fifo []
        [bookedTrade "B" .buy 0 100 100, factorRedemption]).processed .fifo = .ok c ∧
      c.permitsAppend (bookedTrade "S" .sell 2 10 10) .fifo = true ∧
      ∀ x ∈ [bookedTrade "B" .buy 0 100 100, factorRedemption],
        transactionOrderKey x < transactionOrderKey (bookedTrade "S" .sell 2 10 10) := by
  have hadmits : (match processingCheckpoint (processTransactions .fifo []
      [bookedTrade "B" .buy 0 100 100, factorRedemption]).processed .fifo with
      | .ok c => c.permitsAppend (bookedTrade "S" .sell 2 10 10) .fifo
      | .error _ => false) = true := by decide +kernel
  cases hc : processingCheckpoint (processTransactions .fifo []
      [bookedTrade "B" .buy 0 100 100, factorRedemption]).processed .fifo with
  | error e =>
    rw [hc] at hadmits
    cases hadmits
  | ok c =>
    rw [hc] at hadmits
    have hstream : BookedStream "P" "S" [bookedTrade "B" .buy 0 100 100, factorRedemption] := by
      constructor <;> simp [bookedTrade, factorRedemption]
    refine ⟨c, rfl, hadmits, (permitsAppend_sound_iff hstream (by decide +kernel) hc
      ⟨rfl, rfl⟩).mpr ?_ hadmits⟩
    intro p hp hgap
    have hmem := (perm_insertionSort _ _).subset (of_mem_zip hp).1
    have hdate := congrArg Prod.fst hgap.group
    simp only [nil_append, mem_cons, not_mem_nil, or_false] at hmem
    rcases hmem with h | h <;> rw [h] at hdate <;> cases hdate

/-- A sale at the instant of the redemption is admitted, because it sorts after the 50 units the
redemption resolved to; among the booked transactions it sorts before the redemption. -/
theorem permitsAppend_before_redemption :
    (processTransactions .fifo []
      [bookedTrade "B" .buy 0 100 100, factorRedemption]).errored = [] ∧
    (match processingCheckpoint (processTransactions .fifo []
        [bookedTrade "B" .buy 0 100 100, factorRedemption]).processed .fifo with
      | .ok c => c.permitsAppend (bookedTrade "S" .sell 1 10 10) .fifo
      | .error _ => false) = true ∧
    transactionOrderKey (bookedTrade "S" .sell 1 10 10) < transactionOrderKey factorRedemption := by
  refine ⟨?_, ?_, ?_⟩
  · decide +kernel
  · decide +kernel
  · decide +kernel

end LotusCore
