import LotusCore.Liquidity.Buckets

/-!
# Is every cash movement counted once?

A portfolio of deposits and withdrawals in its base currency, all booked, with a cash snapshot that
shows what has flowed in by the end of each day. The opening balance of the ladder is the snapshot
of the end of its first day, and the first bucket adds the flows of that day again:
**`ladder_counts_once_iff`** says that the ladder follows the snapshots exactly when these flows
cancel out.
-/

namespace LotusCore.Liquidity

open Decimal Ledger List

/-! ## Movements -/

def flowsThrough (source : LadderSource) (day : ℤ) : ℚ :=
  ((source.transactions.filter fun t => utcDate t.transactionDate ≤ day).map
    Transaction.signedAmount).sum

def flowsOn (source : LadderSource) (day : ℤ) : ℚ :=
  ((source.transactions.filter fun t => utcDate t.transactionDate = day).map
    Transaction.signedAmount).sum

def cashSnapshotValue (collation : Collation) (source : LadderSource) (day : ℤ) : ℚ :=
  ((cashRows (listLatestSnapshotRows collation source day)).map
    fun row => row.snapshot.marketValue.getD 0).sum

/-- Fully processed deposits and withdrawals in the base currency on one cash instrument. -/
structure CashOnly (collation : Collation) (source : LadderSource) : Prop where
  currency : ∃ code, normalizeCurrencyCode source.baseCurrency = .ok code
  types : ∀ t ∈ source.transactions,
    t.transactionType = "DEPOSIT" ∨ t.transactionType = "WITHDRAWAL"
  ids : (source.transactions.map Transaction.transactionId).Nodup
  /-- Each transaction has one cashflow, dated on its day. -/
  booked : (source.cashflows.map fun c =>
      (c.transactionId, c.cashflowDate, c.currency, c.amount, c.isPortfolioFlow)).Perm
    (source.transactions.map fun t =>
      (t.transactionId, utcDate t.transactionDate, source.baseCurrency, t.signedAmount, true))
  /-- One security is held, so at most one row is open, and it is cash. -/
  rows : ∀ day, ∀ row ∈ listLatestSnapshotRows collation source day,
    row.assetClass = "CASH" ∧ hasUsableSnapshotValuation row = true ∧
      row.snapshot.marketValue ≠ none
  single : ∀ day, (listLatestSnapshotRows collation source day).length ≤ 1
  valued : ∀ day, cashSnapshotValue collation source day = flowsThrough source day

variable {collation : Collation} {source : LadderSource} {first last : ℤ}

theorem flowsThrough_sub (h : first ≤ last + 1) : ((source.transactions.filter fun t =>
        first ≤ utcDate t.transactionDate ∧ utcDate t.transactionDate ≤ last).map
      Transaction.signedAmount).sum =
      flowsThrough source last - flowsThrough source (first - 1) := by
  unfold flowsThrough
  induction source.transactions with
  | nil => simp
  | cons t rest ih =>
    rcases lt_or_ge (utcDate t.transactionDate) first with hfirst | hfirst
    · rw [filter_cons_of_neg (by rw [decide_eq_true_iff]; omega),
        filter_cons_of_pos (by rw [decide_eq_true_iff]; omega),
        filter_cons_of_pos (by rw [decide_eq_true_iff]; omega), ih]
      simp only [map_cons, sum_cons]
      ring
    · by_cases hlast : utcDate t.transactionDate ≤ last
      · rw [filter_cons_of_pos (by rw [decide_eq_true_iff]; omega),
          filter_cons_of_pos (by rw [decide_eq_true_iff]; omega),
          filter_cons_of_neg (by rw [decide_eq_true_iff]; omega)]
        simp only [map_cons, sum_cons, ih]
        ring
      · rw [filter_cons_of_neg (by rw [decide_eq_true_iff]; omega),
          filter_cons_of_neg (by rw [decide_eq_true_iff]; omega),
          filter_cons_of_neg (by rw [decide_eq_true_iff]; omega), ih]

theorem flowsOn_eq (day : ℤ) :
    flowsOn source day = flowsThrough source day - flowsThrough source (day - 1) := by
  rw [← flowsThrough_sub (by omega), flowsOn]
  congr 2
  refine filter_congr fun t _ => ?_
  rw [decide_eq_decide]
  omega

/-! ## Series in one currency -/

variable {r : ℤ × String × ℚ}

section OneCurrency

variable {flows : List (ℤ × String × ℚ)} {currency : String}

theorem dailySums_perm (flows : List (ℤ × String × ℚ)) : (dailySums collation flows).Perm
    ((Grouping.keys (fun f => (f.1, f.2.1)) flows).map fun key => (key.1, key.2,
      ((Grouping.rowsOf (fun f => (f.1, f.2.1)) flows key).map fun f => f.2.2).sum)) :=
  perm_insertionSort _ _

theorem sum_dailySums (flows : List (ℤ × String × ℚ)) (p : ℤ → Bool) :
    (((dailySums collation flows).filter fun f => p f.1).map fun f => f.2.2).sum =
      ((flows.filter fun f => p f.1).map fun f => f.2.2).sum := by
  rw [(((dailySums_perm flows).filter _).map _).sum_eq, filter_map, map_map]
  exact Grouping.sum_keys (fun f : ℤ × String × ℚ => f.2.2) fun key : ℤ × String => p key.1

theorem currency_of_mem_dailySums (hflows : ∀ f ∈ flows, f.2.1 = currency)
    (hr : r ∈ dailySums collation flows) : r.2.1 = currency := by
  rw [dailySums, mem_insertionSort, mem_map] at hr
  obtain ⟨key, hkey, rfl⟩ := hr
  obtain ⟨f, hf, rfl⟩ := Grouping.mem_keys.mp hkey
  exact hflows f hf

theorem dailySums_increasing (hflows : ∀ f ∈ flows, f.2.1 = currency) :
    Ordered.Increasing Prod.fst (dailySums collation flows) := by
  have hle : (dailySums collation flows).Pairwise fun a b => a.1 ≤ b.1 := by
    refine (pairwise_insertionSort _ _).imp fun {a b} hab => ?_
    cases hab with
    | inl hlt => exact hlt.le
    | inr heq => exact heq.1.le
  have hne : (dailySums collation flows).Pairwise fun a b => (a.1, a.2.1) ≠ (b.1, b.2.1) := by
    have hkeys : (Grouping.keys (fun f : ℤ × String × ℚ => (f.1, f.2.1)) flows).Nodup :=
      Grouping.nodup_keys flows
    have hmap : ((dailySums collation flows).map fun r => (r.1, r.2.1)).Nodup := by
      rw [((dailySums_perm flows).map _).nodup_iff, map_map]
      exact (map_id _).symm ▸ hkeys
    exact pairwise_map.mp hmap
  refine (hle.and hne).imp_of_mem fun {a b} ha hb hab => lt_of_le_of_ne hab.1 fun heq => hab.2 ?_
  rw [heq, currency_of_mem_dailySums hflows ha, currency_of_mem_dailySums hflows hb]

theorem aggregated_of_increasing {rows : List (ℤ × ℚ)} (hrows : Ordered.Increasing Prod.fst rows)
    (hexact : ∀ r ∈ rows, cashflowArithmeticContext.round r.2 = r.2) : aggregated rows = rows := by
  have hnodup := hrows.nodup
  have hmap : (Grouping.keys Prod.fst rows).map (fun day =>
      (day, cashflowSum ((Grouping.rowsOf Prod.fst rows day).map Prod.snd))) = rows := by
    rw [Grouping.keys_of_nodup hnodup, map_map]
    refine (map_congr_left fun r hr => ?_).trans (map_id rows)
    rw [Function.comp_apply, Grouping.rowsOf_of_nodup hnodup hr, map_singleton, cashflowSum,
      foldl_cons, foldl_nil, zero_add, hexact r hr]
    rfl
  rw [aggregated, hmap]
  exact List.Pairwise.insertionSort_eq (hrows.imp fun hlt => hlt.le)

end OneCurrency

theorem snapshot_mem_of_mem_rows {day : ℤ} {row : ReportingSnapshotRow}
    (hrow : row ∈ listLatestSnapshotRows collation source day) :
    row.snapshot ∈ source.snapshots := by
  rw [listLatestSnapshotRows, mem_insertionSort, mem_flatMap] at hrow
  obtain ⟨s, hs, hrow⟩ := hrow
  have hsnapshot : row.snapshot = s := by
    split at hrow
    · rw [mem_singleton.mp hrow]
    · obtain ⟨i, -, rfl⟩ := mem_map.mp hrow
      rfl
  obtain ⟨group, hgroup, hlatest⟩ := mem_filterMap.mp hs
  obtain ⟨first, -, rfl⟩ := Grouping.mem_groups.mp hgroup
  have hmem := (Grouping.mem_rowsOf.mp (Ordered.latest_mem hlatest)).1
  exact hsnapshot ▸ (mem_filter.mp hmem).1

namespace CashOnly

variable (h : CashOnly collation source)
include h

/-! ## The opening balance -/

theorem storable_flowsThrough (day : ℤ) : Storable (flowsThrough source day) := by
  rw [← h.valued day, cashSnapshotValue]
  have hlength := h.single day
  have hcash := h.rows day
  cases hrows : listLatestSnapshotRows collation source day with
  | nil => exact storable_zero
  | cons row rest =>
    rw [hrows] at hlength hcash
    obtain rfl : rest = [] := length_eq_zero_iff.mp (by simpa using hlength)
    obtain ⟨hclass, -, hvalue⟩ := hcash row (by simp)
    obtain ⟨v, hv⟩ := Option.ne_none_iff_exists'.mp hvalue
    have hsum : ((cashRows [row]).map fun row => row.snapshot.marketValue.getD 0).sum = v := by
      simp [cashRows, hclass, hv]
    rw [hsum]
    refine source.marketValue_storable row.snapshot ?_ v hv
    exact snapshot_mem_of_mem_rows (hrows ▸ mem_singleton_self row)

theorem openingCashBalance_eq {day : ℤ} (hopen : listLatestSnapshotRows collation source day ≠ []) :
    openingCashBalance (listLatestSnapshotRows collation source day) =
      some (flowsThrough source day) := by
  have hstorable := h.storable_flowsThrough day
  have hvalued := h.valued day
  have hcash := h.rows day
  have hlength := h.single day
  rw [cashSnapshotValue] at hvalued
  obtain ⟨row, rest, hrows⟩ := exists_cons_of_ne_nil hopen
  rw [hrows] at hvalued hlength hcash ⊢
  obtain rfl : rest = [] := length_eq_zero_iff.mp (by simpa using hlength)
  obtain ⟨hclass, husable, hvalue⟩ := hcash row (by simp)
  have hcashRows : cashRows [row] = [row] := by simp [cashRows, hclass]
  have hunclassified : unclassifiedRows [row] = [] := by simp [unclassifiedRows, hclass]
  rw [hcashRows, map_singleton, sum_singleton] at hvalued
  rw [openingCashBalance, if_neg, hcashRows, map_singleton, hvalued]
  · rw [cashflowSum, foldl_cons, foldl_nil, zero_add]
    rw [cashflowContext_round hstorable.1 ((storable_bound hstorable).trans (by norm_num))]
  · rw [hcashRows, hunclassified]
    simp [hvalue, husable]

/-! ## The series -/

theorem latestCashflows_eq : latestCashflows source = source.cashflows := by
  have hids : (source.cashflows.map Cashflow.transactionId).Nodup := by
    have hperm := h.booked.map Prod.fst
    rw [map_map, map_map] at hperm
    exact hperm.nodup_iff.mpr h.ids
  rw [latestCashflows, Grouping.groups_of_nodup hids, filterMap_map]
  exact filterMap_some

theorem projectedSeries_eq (first last : ℤ) : projectedSeries collation source first last = [] := by
  have hnone : ∀ t ∈ source.transactions, ∃ c ∈ source.cashflows,
      c.transactionId = t.transactionId := by
    intro t ht
    have hmem := h.booked.mem_iff.mpr (mem_map_of_mem ht)
    obtain ⟨c, hc, heq⟩ := mem_map.mp hmem
    exact ⟨c, hc, congrArg Prod.fst heq⟩
  rw [projectedSeries, filterMap_eq_nil_iff.mpr]
  · rfl
  · intro t ht
    split
    · rfl
    · exact if_neg fun hcond => hcond.2.2.2.2 (hnone t ht)

theorem exists_transaction {c : Cashflow} (hc : c ∈ source.cashflows) :
    ∃ t ∈ source.transactions, c.cashflowDate = utcDate t.transactionDate ∧
      c.currency = source.baseCurrency ∧ c.amount = t.signedAmount ∧ c.isPortfolioFlow = true := by
  have hmem := h.booked.mem_iff.mp (mem_map_of_mem hc)
  obtain ⟨t, ht, heq⟩ := mem_map.mp hmem
  simp only [Prod.mk.injEq] at heq
  exact ⟨t, ht, heq.2.1.symm, heq.2.2.1.symm, heq.2.2.2.1.symm, heq.2.2.2.2.symm⟩

theorem bookedSeries_eq (first last : ℤ) : bookedSeries collation source first last =
    dailySums collation ((source.cashflows.filter fun c =>
      first ≤ c.cashflowDate ∧ c.cashflowDate ≤ last).map
        fun c => (c.cashflowDate, source.baseCurrency, c.amount)) := by
  rw [bookedSeries, h.latestCashflows_eq]
  congr 1
  have hfilter : (source.cashflows.filter fun c => decide (first ≤ c.cashflowDate ∧
      c.cashflowDate ≤ last ∧ c.isPortfolioFlow = true)) =
      source.cashflows.filter fun c => decide (first ≤ c.cashflowDate ∧ c.cashflowDate ≤ last) := by
    refine filter_congr fun c hc => ?_
    obtain ⟨t, -, -, -, -, hflow⟩ := h.exists_transaction hc
    simp [hflow]
  rw [hfilter]
  refine map_congr_left fun c hc => ?_
  obtain ⟨t, -, -, hcurrency, -, -⟩ := h.exists_transaction (mem_filter.mp hc).1
  rw [hcurrency]

/-- The booked series adds up, over days of the window, to what the running balance moves by. -/
theorem sum_bookedSeries {first last s e : ℤ} (hs : first ≤ s) (hse : s ≤ e + 1) (he : e ≤ last) :
    (((bookedSeries collation source first last).filter fun f => s ≤ f.1 ∧ f.1 ≤ e).map
      fun f => f.2.2).sum = flowsThrough source e - flowsThrough source (s - 1) := by
  rw [h.bookedSeries_eq, sum_dailySums _ fun d => decide (s ≤ d ∧ d ≤ e), filter_map,
    map_map, filter_filter, ← flowsThrough_sub hse]
  have hfilter : (source.cashflows.filter fun c =>
      (((fun f : ℤ × String × ℚ => decide (s ≤ f.1 ∧ f.1 ≤ e)) ∘
        fun c => (c.cashflowDate, source.baseCurrency, c.amount)) c) &&
        decide (first ≤ c.cashflowDate ∧ c.cashflowDate ≤ last)) =
      source.cashflows.filter fun c => decide (s ≤ c.cashflowDate ∧ c.cashflowDate ≤ e) := by
    refine filter_congr fun c _ => ?_
    rw [Function.comp_apply, ← Bool.decide_and, decide_eq_decide]
    omega
  rw [hfilter]
  -- both sides are read off the booked rows, which are the same up to order
  have hperm := (h.booked.filter fun r => decide (s ≤ r.2.1 ∧ r.2.1 ≤ e)).map fun r => r.2.2.2.1
  rw [filter_map, filter_map, map_map, map_map] at hperm
  exact hperm.sum_eq

theorem bookedSeries_increasing (first last : ℤ) :
    Ordered.Increasing Prod.fst (bookedSeries collation source first last) := by
  have hone : ∀ f ∈ (source.cashflows.filter fun c =>
      decide (first ≤ c.cashflowDate ∧ c.cashflowDate ≤ last)).map
        (fun c => (c.cashflowDate, source.baseCurrency, c.amount)),
        f.2.1 = source.baseCurrency := by
    intro f hf
    obtain ⟨c, -, rfl⟩ := mem_map.mp hf
    rfl
  rw [h.bookedSeries_eq]
  exact dailySums_increasing hone

theorem mem_bookedSeries (hr : r ∈ bookedSeries collation source first last) :
    r.2.1 = source.baseCurrency ∧ first ≤ r.1 ∧ r.1 ≤ last := by
  rw [h.bookedSeries_eq, dailySums, mem_insertionSort, mem_map] at hr
  obtain ⟨key, hkey, rfl⟩ := hr
  obtain ⟨f, hf, rfl⟩ := Grouping.mem_keys.mp hkey
  obtain ⟨c, hc, rfl⟩ := mem_map.mp hf
  exact ⟨rfl, by simpa using (mem_filter.mp hc).2⟩

theorem round_flows (s e : ℤ) :
    OnGrid 10 (flowsThrough source e - flowsThrough source s) ∧
      |flowsThrough source e - flowsThrough source s| < 10 ^ 40 := by
  have he := h.storable_flowsThrough e
  have hs := h.storable_flowsThrough s
  refine ⟨he.1.sub hs.1, (abs_sub _ _).trans_lt ?_⟩
  have hbe := storable_bound he
  have hbs := storable_bound hs
  have hlt : (10 : ℚ) ^ 8 + 10 ^ 8 < 10 ^ 40 := by norm_num
  linarith

theorem amount_of_mem_bookedSeries (hr : r ∈ bookedSeries collation source first last) :
    r.2.2 = flowsThrough source r.1 - flowsThrough source (r.1 - 1) := by
  obtain ⟨-, hfirst, hlast⟩ := h.mem_bookedSeries hr
  have hday : (bookedSeries collation source first last).filter
      (fun f => decide (r.1 ≤ f.1 ∧ f.1 ≤ r.1)) = [r] := by
    rw [← Grouping.rowsOf_of_nodup (h.bookedSeries_increasing first last).nodup hr]
    refine filter_congr fun f _ => ?_
    rw [decide_eq_decide]
    omega
  have hsum := h.sum_bookedSeries hfirst (by omega : r.1 ≤ r.1 + 1) hlast
  rw [hday, map_singleton, sum_singleton] at hsum
  exact hsum

theorem readCashflowEvidenceWindow_eq (first last : ℤ) (includeProjected : Bool) :
    readCashflowEvidenceWindow collation source first last includeProjected =
      .ok ((bookedSeries collation source first last).map fun f => (f.1, f.2.2), []) := by
  obtain ⟨code, hcode⟩ := h.currency
  have hnative : cashflowSeriesEvidence (bookedSeries collation source first last) =
      .ok ((bookedSeries collation source first last).map fun f => (f.1, code, f.2.2)) := by
    refine Exec.except_mapM_eq_map fun r hr => ?_
    rw [(h.mem_bookedSeries hr).1, hcode]
    rfl
  have hprojected : (if includeProjected then projectedSeries collation source first last else []) =
      [] := by
    rw [h.projectedSeries_eq, ite_self]
  have hconverted : ((bookedSeries collation source first last).map
      fun f => (f.1, code, f.2.2)).mapM (convertedRow source code) =
      .ok ((bookedSeries collation source first last).map fun f => (f.1, f.2.2)) := by
    rw [Exec.except_mapM_eq_map (g := fun f => (f.1, f.2.2)), map_map]
    · rfl
    · intro r hr
      obtain ⟨f, -, rfl⟩ := mem_map.mp hr
      exact if_pos rfl
  have haggregated : aggregated ((bookedSeries collation source first last).map
      fun f => (f.1, f.2.2)) =
      (bookedSeries collation source first last).map fun f => (f.1, f.2.2) := by
    refine aggregated_of_increasing ?_ ?_
    · exact pairwise_map.mpr (h.bookedSeries_increasing first last)
    · intro r hr
      obtain ⟨f, hf, rfl⟩ := mem_map.mp hr
      have hexact := h.round_flows (f.1 - 1) f.1
      dsimp only
      rw [h.amount_of_mem_bookedSeries hf]
      exact cashflowContext_round hexact.1 hexact.2
  unfold readCashflowEvidenceWindow convertAndAggregate
  rw [hnative, hprojected, hcode]
  simp only [bind, Except.bind, pure, Except.pure, hconverted, haggregated]
  rfl

theorem sumSeries_booked {b : LadderDateBucket} (hfirst : first ≤ b.startDate)
    (hdays : b.startDate ≤ b.endDate + 1) (hlast : b.endDate ≤ last) :
    sumSeries ((bookedSeries collation source first last).map fun f => (f.1, f.2.2)) b =
      flowsThrough source b.endDate - flowsThrough source (b.startDate - 1) := by
  have hmap : (((bookedSeries collation source first last).map fun f => (f.1, f.2.2)).filter
        fun f => decide (b.startDate ≤ f.1 ∧ f.1 ≤ b.endDate)).map Prod.snd =
      ((bookedSeries collation source first last).filter
        fun f => decide (b.startDate ≤ f.1 ∧ f.1 ≤ b.endDate)).map fun f => f.2.2 := by
    rw [filter_map, map_map]
    rfl
  rw [sumSeries, hmap, cashflowSum_eq_sum, h.sum_bookedSeries hfirst hdays hlast]
  intro p hp
  -- a running sum is what the balance has moved by since the first day of the bucket
  obtain ⟨q, hq⟩ := hp
  obtain ⟨done, rest, hsplit, rfl, -⟩ := append_eq_map_iff.mp hq
  rcases eq_nil_or_concat done with rfl | ⟨front, r, rfl⟩
  · exact ⟨OnGrid.zero 10, by simp⟩
  rw [concat_eq_append] at hsplit ⊢
  have hincreasing : Ordered.Increasing Prod.fst (front ++ [r] ++ rest) :=
    hsplit ▸ (h.bookedSeries_increasing first last).filter _
  have hr : r ∈ (bookedSeries collation source first last).filter
      fun f => decide (b.startDate ≤ f.1 ∧ f.1 ≤ b.endDate) := by
    rw [hsplit]
    simp
  have hday := (mem_filter.mp hr).2
  rw [decide_eq_true_iff] at hday
  have hfilter : ((bookedSeries collation source first last).filter
      fun f => decide (b.startDate ≤ f.1 ∧ f.1 ≤ b.endDate)).filter (fun f => decide (f.1 ≤ r.1)) =
      (bookedSeries collation source first last).filter
        fun f => decide (b.startDate ≤ f.1 ∧ f.1 ≤ r.1) := by
    rw [filter_filter]
    refine filter_congr fun f _ => ?_
    rw [← Bool.decide_and, decide_eq_decide]
    omega
  rw [hincreasing.append_eq_filter, ← hsplit, hfilter,
    h.sum_bookedSeries hfirst (by omega) (hday.2.trans hlast)]
  exact h.round_flows _ _

variable {day horizonDays : ℤ}

theorem getLiquidityLadder_eq {asOfDate : Option ℤ}
    (hday : (asOfDate <|> source.latestBusinessDate) = some day) (h0 : 0 ≤ horizonDays)
    (hmax : horizonDays ≤ 366) (hopen : listLatestSnapshotRows collation source day ≠ [])
    (includeProjected : Bool) :
    getLiquidityLadder collation source asOfDate horizonDays includeProjected =
      .ok (buildLadderBuckets (some (flowsThrough source day))
        ((bookedSeries collation source day (day + horizonDays)).map fun f => (f.1, f.2.2)) []
        (some (flowsThrough source day)) (dateBuckets day horizonDays)) := by
  unfold getLiquidityLadder
  rw [if_neg (by unfold maxHorizonDays; omega), hday]
  simp only
  rw [h.readCashflowEvidenceWindow_eq, h.openingCashBalance_eq hopen]
  rfl

theorem cumulative_eq {l : List LadderDateBucket} (hl : Contiguous (day + horizonDays) day l) :
    ∀ b ∈ buildLadderBuckets (some (flowsThrough source day))
        ((bookedSeries collation source day (day + horizonDays)).map fun f => (f.1, f.2.2)) []
        (some (flowsThrough source day)) l,
      b.cumulativeCashAvailable = some (flowsThrough source day +
        (flowsThrough source b.endDate - flowsThrough source (day - 1))) := by
  refine cumulative_buildLadderBuckets hl (fun b hb => ?_) (fun e => ?_) fun e => ?_
  · obtain ⟨hstart, hdays, hend⟩ := hl.bounds b hb
    have hnone : sumSeries [] b = 0 := rfl
    have hexact := h.round_flows (b.startDate - 1) b.endDate
    rw [hnone, add_zero, h.sumSeries_booked hstart (by omega) hend]
    exact cashflowContext_round hexact.1 hexact.2
  · exact (h.storable_flowsThrough day).1.add (h.round_flows _ _).1
  · have hday := storable_bound (h.storable_flowsThrough day)
    have he := storable_bound (h.storable_flowsThrough e)
    have hbefore := storable_bound (h.storable_flowsThrough (day - 1))
    have hsum := abs_add_le (flowsThrough source day)
      (flowsThrough source e - flowsThrough source (day - 1))
    have hdiff := abs_sub (flowsThrough source e) (flowsThrough source (day - 1))
    have hlt : (10 : ℚ) ^ 8 + (10 ^ 8 + 10 ^ 8) < 10 ^ 40 := by norm_num
    linarith

end CashOnly

/-- **The ladder follows the cash snapshots exactly when the flows of its first day cancel out.**
Its buckets cover the days of the horizon, each day once, in any case. -/
theorem ladder_counts_once_iff (h : CashOnly collation source) {asOfDate : Option ℤ}
    {day horizonDays : ℤ} (hday : (asOfDate <|> source.latestBusinessDate) = some day)
    (h0 : 0 ≤ horizonDays) (hmax : horizonDays ≤ 366)
    (hopen : listLatestSnapshotRows collation source day ≠ []) (includeProjected : Bool) :
    ∃ buckets,
      getLiquidityLadder collation source asOfDate horizonDays includeProjected = .ok buckets ∧
      (((∀ b ∈ buckets, b.cumulativeCashAvailable =
            some (cashSnapshotValue collation source b.endDate)) ∧
          buckets.Pairwise (fun a b => a.endDate < b.startDate) ∧
          ∀ d, (∃ b ∈ buckets, b.startDate ≤ d ∧ d ≤ b.endDate) ↔
            day ≤ d ∧ d ≤ day + horizonDays) ↔
        flowsOn source day = 0) := by
  refine ⟨_, h.getLiquidityLadder_eq hday h0 hmax hopen includeProjected, ?_⟩
  have hcontiguous : Contiguous (day + horizonDays) day (dateBuckets day horizonDays) :=
    contiguous_dateBuckets h0
  have hcumulative := h.cumulative_eq hcontiguous
  generalize hbuckets : buildLadderBuckets (some (flowsThrough source day))
    ((bookedSeries collation source day (day + horizonDays)).map fun f => (f.1, f.2.2)) []
    (some (flowsThrough source day)) (dateBuckets day horizonDays) = buckets at hcumulative
  have hdates : buckets.map (fun b => (⟨b.bucketCode, b.startDate, b.endDate⟩ : LadderDateBucket)) =
      dateBuckets day horizonDays := hbuckets ▸ buildLadderBuckets_map
  have hpairwise : buckets.Pairwise fun a b => a.endDate < b.startDate := by
    have := hcontiguous.pairwise
    rw [← hdates, pairwise_map] at this
    exact this
  have hcover : ∀ d, (∃ b ∈ buckets, b.startDate ≤ d ∧ d ≤ b.endDate) ↔
      day ≤ d ∧ d ≤ day + horizonDays := by
    intro d
    rw [← hcontiguous.mem_iff (by omega), ← hdates]
    simp only [mem_map, exists_exists_and_eq_and]
  rw [flowsOn_eq, sub_eq_zero]
  constructor
  · rintro ⟨hshown, -, -⟩
    -- the first day of the ladder lies in a bucket
    obtain ⟨b, hb, -⟩ := (hcover day).mpr ⟨le_rfl, by omega⟩
    have heq := (hcumulative b hb).symm.trans (hshown b hb)
    rw [h.valued, Option.some_inj] at heq
    linarith
  · intro hzero
    refine ⟨fun b hb => ?_, hpairwise, hcover⟩
    rw [hcumulative b hb, h.valued, hzero]
    congr 1
    ring

/-- The rows of a day depend on the day through the dates up to it. -/
theorem listLatestSnapshotRows_congr {d e : ℤ}
    (hhistory : ∀ h ∈ source.history, h.positionDate ≤ d ↔ h.positionDate ≤ e)
    (hsnapshots : ∀ s ∈ source.snapshots, s.date ≤ d ↔ s.date ≤ e) :
    listLatestSnapshotRows collation source d = listLatestSnapshotRows collation source e := by
  have hopen : latestOpenHistory source d = latestOpenHistory source e := by
    unfold latestOpenHistory
    congr 3
    exact filter_congr fun h hh => decide_eq_decide.mpr (and_congr_right fun _ => hhistory h hh)
  have hlatest : latestSnapshots source d = latestSnapshots source e := by
    unfold latestSnapshots
    rw [hopen]
    congr 2
    exact filter_congr fun s hs => decide_eq_decide.mpr
      (and_congr_right fun _ => and_congr_left fun _ => hsnapshots s hs)
  rw [listLatestSnapshotRows, hlatest, listLatestSnapshotRows]

/-- A deposit of 100 on day 0 and a withdrawal of 40 on day 20. -/
def twoFlows : LadderSource where
  baseCurrency := "USD"
  latestBusinessDate := none
  history := [⟨1, "CASH_USD", 0, 0, 100⟩, ⟨2, "CASH_USD", 20, 0, 60⟩]
  states := [("CASH_USD", 0)]
  snapshots := [⟨1, "CASH_USD", 0, 0, 100, some 100, "VALUED_CURRENT"⟩,
    ⟨2, "CASH_USD", 20, 0, 60, some 60, "VALUED_CURRENT"⟩]
  instruments := [⟨"CASH_USD", some "CASH"⟩]
  cashflows := [⟨1, "T1", 0, 0, 100, "USD", true⟩, ⟨2, "T2", 20, 0, -40, "USD", true⟩]
  transactions := [⟨"T1", "DEPOSIT", 0, some 0, 100, "USD"⟩,
    ⟨"T2", "WITHDRAWAL", 20 * 86400000000, none, 40, "USD"⟩]
  fxRates := []
  marketValue_storable := by decide +kernel
  amount_storable := by decide +kernel

/-- Each day is like the last day before it on which cash moved, or like the day before any did. -/
theorem twoFlows_day (day : ℤ) : ∃ d ∈ [-1, 0, 20],
    listLatestSnapshotRows codePointOrder twoFlows day =
        listLatestSnapshotRows codePointOrder twoFlows d ∧
      flowsThrough twoFlows day = flowsThrough twoFlows d := by
  obtain ⟨d, hd, hzero, htwenty⟩ :
      ∃ d ∈ [-1, 0, 20], ((0 : ℤ) ≤ day ↔ 0 ≤ d) ∧ ((20 : ℤ) ≤ day ↔ 20 ≤ d) := by
    rcases lt_or_ge day 0 with hneg | hpos
    · exact ⟨-1, by simp, by omega, by omega⟩
    rcases lt_or_ge day 20 with hearly | hlate
    · exact ⟨0, by simp, by omega, by omega⟩
    · exact ⟨20, by simp, by omega, by omega⟩
  refine ⟨d, hd, listLatestSnapshotRows_congr ?_ ?_, ?_⟩
  · simpa [twoFlows] using ⟨hzero, htwenty⟩
  · simpa [twoFlows] using ⟨hzero, htwenty⟩
  · have hdates : ∀ t ∈ twoFlows.transactions,
        (utcDate t.transactionDate ≤ day ↔ utcDate t.transactionDate ≤ d) := by
      have hutc : utcDate (20 * 86400000000) = 20 := by decide
      simpa [twoFlows, hutc, show utcDate 0 = 0 from rfl] using ⟨hzero, htwenty⟩
    unfold flowsThrough
    rw [filter_congr fun t ht => decide_eq_decide.mpr (hdates t ht)]

theorem twoFlows_cashOnly : CashOnly codePointOrder twoFlows where
  currency := ⟨"USD", by decide +kernel⟩
  types := by decide
  ids := by decide
  booked := by decide +kernel
  rows day := by
    obtain ⟨d, hd, hrows, -⟩ := twoFlows_day day
    rw [hrows]
    clear hrows
    revert d
    decide +kernel
  single day := by
    obtain ⟨d, hd, hrows, -⟩ := twoFlows_day day
    rw [hrows]
    clear hrows
    revert d
    decide +kernel
  valued day := by
    obtain ⟨d, hd, hrows, hflows⟩ := twoFlows_day day
    rw [cashSnapshotValue, hrows, hflows]
    clear hrows hflows
    revert d
    decide +kernel

/-- The ladder of the day of the deposit shows twice the cash there is. -/
theorem twoFlows_counted_twice :
    CashOnly codePointOrder twoFlows ∧
    ((getLiquidityLadder codePointOrder twoFlows (some 0) 0 true).map fun buckets =>
      buckets.map fun b => (b.endDate, b.cumulativeCashAvailable)) = .ok [(0, some 200)] ∧
    cashSnapshotValue codePointOrder twoFlows 0 = 100 :=
  ⟨twoFlows_cashOnly, by decide +kernel⟩

/-- From the day after the deposit on, the ladder shows the cash there is, also past the
withdrawal. -/
theorem ladder_counts_once_iff_twoFlows :
    flowsOn twoFlows 1 = 0 ∧ flowsOn twoFlows 20 = -40 ∧
      ∃ buckets, getLiquidityLadder codePointOrder twoFlows (some 1) 30 true = .ok buckets ∧
        ∀ b ∈ buckets, b.cumulativeCashAvailable =
          some (cashSnapshotValue codePointOrder twoFlows b.endDate) := by
  have hflows : flowsOn twoFlows 1 = 0 := by decide +kernel
  have hday : (some 1 <|> twoFlows.latestBusinessDate) = some 1 := rfl
  obtain ⟨buckets, hok, hiff⟩ := ladder_counts_once_iff twoFlows_cashOnly hday
    (by decide : (0 : ℤ) ≤ 30) (by decide) (by decide +kernel) true
  exact ⟨hflows, by decide +kernel, buckets, hok, (hiff.mpr hflows).1⟩

end LotusCore.Liquidity
