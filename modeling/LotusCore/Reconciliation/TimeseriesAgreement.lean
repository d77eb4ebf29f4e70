import LotusCore.Data.Table
import LotusCore.Reconciliation.TimeseriesControl

/-!
# When the control agrees with the aggregation

Aggregation and control read the same tables, but they tell securities, portfolios and currencies
apart differently: the aggregation by trimmed ids and upper-case codes, the control mostly by what
is stored.

* `Agrees`: the control reports no mismatch above the rounding of both sides.
* `ReadAlike`: the stored ids and currencies leave no room for the difference.
* `rankedPositionRows_eq`, `ratedRows_eq`: both readers then take the same rows at the same rates.
* **`control_agrees`**: the control agrees with the aggregation for such data.
-/

namespace LotusCore.Reconciliation

open Decimal DerivedState Exec List

/-! ## Agreement -/

/-- The total of an amount over rows and their rates, without rounding. -/
def exactTotal (rows : List (PositionTimeseriesRecord × ℚ)) (a : PortfolioAmount) : ℚ :=
  (rows.map fun p => a.ofPosition p.1 * p.2).sum

section Agreement

variable (market : TimeseriesMarketData) (portfolio : PortfolioAggregationScope) (date : ℤ)
  (epoch : ℕ)

/-- The rate the aggregation gives a row, zero if it refuses it. -/
def aggregateRate (r : PositionTimeseriesRecord) : ℚ :=
  match contributionOf market (normalizeCurrency portfolio.baseCurrency) r with
  | .ok c => c.fxRate.rate
  | .error _ => 0

/-- The rows the aggregation adds up, with their rates. -/
def aggregatedRows (table : List PositionTimeseriesRecord) : List (PositionTimeseriesRecord × ℚ) :=
  (getAllPositionTimeseriesForDate table portfolio.portfolioId date epoch).map fun r =>
    (r, aggregateRate market portfolio r)

/-- What rounding contributes to a difference: in the sums of the control, in the stored record, and
in the difference itself. -/
def roundingError (record : PortfolioTimeseriesRecord)
    (rated aggregated : List (PositionTimeseriesRecord × ℚ)) (a : PortfolioAmount) : ℚ :=
  |aggregateAuthoritativePortfolioMetrics rated a - exactTotal rated a| +
    |a.ofPortfolio record - exactTotal aggregated a| +
    |metricDelta record (aggregateAuthoritativePortfolioMetrics rated) a -
      (a.ofPortfolio record - aggregateAuthoritativePortfolioMetrics rated a)|

/-- The record that the aggregation stores has no mismatch above the rounding of both sides. -/
def Agrees (table : List PositionTimeseriesRecord) : Prop :=
  ∀ record, aggregateDate portfolio date epoch market table = .ok record →
    ∃ rated, ratedRows market portfolio date epoch table = .ok rated ∧ ∀ tolerance,
      (∀ a, roundingError record rated (aggregatedRows market portfolio date epoch table) a ≤
        tolerance) → timeseriesAggregateMismatches record rated tolerance = []

/-- The stored ids and currencies that both readers read alike. The rows of the portfolio carry its
id as stored. A security has one id in all its rows, with blanks around it at most, and at most one
instrument. The currencies are three-letter codes, and one that is the base currency in upper case
is spelled like it. -/
structure ReadAlike (table : List PositionTimeseriesRecord) : Prop where
  portfolioIds : ∀ r ∈ table,
    sqlTrim r.portfolioId = strip portfolio.portfolioId ↔ r.portfolioId = portfolio.portfolioId
  securityIds : ∀ r ∈ table, ∀ q ∈ table, sqlTrim q.securityId = sqlTrim r.securityId →
    q.securityId = r.securityId
  blanks : ∀ r ∈ table, sqlTrim r.securityId = strip r.securityId
  instruments : (market.instruments.map fun i => sqlTrim i.securityId).Nodup
  baseCurrency : ∃ code, normalizeCurrencyCode portfolio.baseCurrency = .ok code
  currencies : ∀ i ∈ market.instruments, (∃ code, normalizeCurrencyCode i.currency = .ok code) ∧
    (normalizeCurrency i.currency = normalizeCurrency portfolio.baseCurrency →
      strip i.currency = strip portfolio.baseCurrency)

variable {market portfolio date epoch} {table : List PositionTimeseriesRecord}
  {rated : List (PositionTimeseriesRecord × ℚ)} {record : PortfolioTimeseriesRecord}

/-- Where the exact totals agree, only rounding is left of a difference. -/
theorem timeseriesAggregateMismatches_eq_nil {tolerance : ℚ}
    (htolerance : ∀ a, roundingError record rated rated a ≤ tolerance) :
    timeseriesAggregateMismatches record rated tolerance = [] := by
  unfold timeseriesAggregateMismatches
  split_ifs
  · rfl
  refine filter_eq_nil_iff.mpr fun a _ => ?_
  have herror := htolerance a
  unfold roundingError at herror
  generalize hdelta : metricDelta record (aggregateAuthoritativePortfolioMetrics rated) a = delta
    at herror ⊢
  generalize aggregateAuthoritativePortfolioMetrics rated a = metric at herror
  have hsplit : delta = (delta - (a.ofPortfolio record - metric)) +
      ((a.ofPortfolio record - exactTotal rated a) - (metric - exactTotal rated a)) := by ring
  have h₁ := abs_add_le (delta - (a.ofPortfolio record - metric))
    ((a.ofPortfolio record - exactTotal rated a) - (metric - exactTotal rated a))
  have h₂ := abs_sub (a.ofPortfolio record - exactTotal rated a) (metric - exactTotal rated a)
  rw [← hsplit] at h₁
  simp only [decide_eq_true_eq, not_lt]
  linarith

/-! ## The same rows -/

theorem rankedPositionRows_eq (h : ReadAlike market portfolio table) :
    rankedPositionRows table portfolio.portfolioId date epoch =
      getAllPositionTimeseriesForDate table portfolio.portfolioId date epoch := by
  have hcandidates : (table.filter fun r =>
      r.portfolioId = portfolio.portfolioId ∧ r.date ≤ date ∧ r.epoch ≤ epoch) =
      table.filter fun r =>
        sqlTrim r.portfolioId = strip portfolio.portfolioId ∧ r.date ≤ date ∧ r.epoch ≤ epoch :=
    filter_congr fun r hr => by simp only [h.portfolioIds r hr]
  unfold rankedPositionRows getAllPositionTimeseriesForDate
  simp only [hcandidates]
  congr 1
  refine filter_congr fun r hr => ?_
  have hmem : ∀ q ∈ table.filter (fun r => sqlTrim r.portfolioId = strip portfolio.portfolioId ∧
      r.date ≤ date ∧ r.epoch ≤ epoch), q ∈ table := fun q hq => (mem_filter.mp hq).1
  rw [decide_eq_decide]
  refine forall₂_congr fun q hq => ?_
  have hid : q.securityId = r.securityId ↔ sqlTrim q.securityId = sqlTrim r.securityId :=
    ⟨fun heq => by rw [heq], h.securityIds r (hmem r hr) q (hmem q hq)⟩
  rw [hid]

/-! ## The same rates -/

theorem normalizeCurrencyCode_eq_ok {currency code : String}
    (h : normalizeCurrencyCode currency = .ok code) :
    code = normalizeCurrency currency ∧ strip currency ≠ "" ∧
      normalizeCurrencyCode (strip currency) = .ok code := by
  have hcode : normalizeCurrencyCode (strip currency) = normalizeCurrencyCode currency := by
    unfold normalizeCurrencyCode
    rw [strip_strip]
  refine ⟨?_, ?_, hcode.trans h⟩
  · unfold normalizeCurrencyCode at h
    dsimp only at h
    split_ifs at h
    exact (Except.ok.inj h).symm
  · intro hblank
    have hempty : normalizeCurrencyCode "" =
        .error (.valueError "Currency code must be a three-letter ISO 4217 code.") := by decide
    rw [← hcode, hblank, hempty] at h
    cases h

/-- The rate the aggregation found is the one the control finds. -/
theorem authoritativeRate_eq (h : ReadAlike market portfolio table) {i : TimeseriesInstrument}
    (hi : i ∈ market.instruments) {day : ℤ} {fx : TimeseriesFxRate}
    (hfx : resolveFxRate market (normalizeCurrency i.currency)
      (normalizeCurrency portfolio.baseCurrency) day = .ok fx) :
    authoritativeRate market portfolio.baseCurrency i.currency day = .ok fx.rate := by
  obtain ⟨⟨code, hcode⟩, hspelled⟩ := h.currencies i hi
  obtain ⟨base, hbase⟩ := h.baseCurrency
  obtain ⟨rfl, hnamed, hcode⟩ := normalizeCurrencyCode_eq_ok hcode
  obtain ⟨rfl, hnamed', hbase⟩ := normalizeCurrencyCode_eq_ok hbase
  unfold resolveFxRate at hfx
  unfold authoritativeRate
  split_ifs at hfx with hsame
  · rw [hspelled hsame] at hnamed ⊢
    cases hfx
    simp [requiresAuthoritativeFxRate]
  · have hdiffer : strip i.currency ≠ strip portfolio.baseCurrency := by
      intro heq
      apply hsame
      unfold normalizeCurrency
      rw [heq]
    have hrequires : requiresAuthoritativeFxRate (strip i.currency)
        (strip portfolio.baseCurrency) = true := by
      simp [requiresAuthoritativeFxRate, hnamed, hnamed', hdiffer]
    rw [if_pos hrequires, hcode, hbase]
    cases hfound : market.fxRate (normalizeCurrency i.currency)
        (normalizeCurrency portfolio.baseCurrency) day with
    | none =>
      rw [hfound] at hfx
      cases hfx
    | some found =>
      rw [hfound] at hfx
      dsimp only at hfx
      split_ifs at hfx with hpositive
      cases hfx
      show Except.ok (latestFxRate market _ _ day) = _
      rw [latestFxRate, hfound]
      simp only [if_pos (not_le.mp hpositive)]

theorem contribution_new_eq_ok {r : PositionTimeseriesRecord} {fx : TimeseriesFxRate}
    {c : PortfolioPositionContribution} (h : PortfolioPositionContribution.new r fx = .ok c) :
    c = ⟨r, fx⟩ := by
  unfold PortfolioPositionContribution.new at h
  split_ifs at h
  · exact (Except.ok.inj h).symm
  · exact (Except.ok.inj h).symm

/-- A row the aggregation accepts joins its one instrument, at the rate of the aggregation. -/
theorem joined_rate_eq (h : ReadAlike market portfolio table) {r : PositionTimeseriesRecord}
    (hr : r ∈ table) {c : PortfolioPositionContribution}
    (hc : contributionOf market (normalizeCurrency portfolio.baseCurrency) r = .ok c) :
    (((market.instruments.filter fun i => sqlTrim i.securityId = sqlTrim r.securityId).map
      fun i => (r, i)).mapM fun row => do
        let rate ← authoritativeRate market portfolio.baseCurrency row.2.currency row.1.date
        .ok (row.1, rate)) = .ok [(r, aggregateRate market portfolio r)] := by
  have hrate : aggregateRate market portfolio r = c.fxRate.rate := by rw [aggregateRate, hc]
  unfold contributionOf at hc
  dsimp only at hc
  split at hc
  · cases hc
  rename_i i hfind
  split_ifs at hc with hblank
  · cases hc
  obtain ⟨fx, hfx, hnew⟩ := except_bind_eq_ok.mp hc
  cases contribution_new_eq_ok hnew
  have hi : i ∈ market.instruments := mem_reverse.mp (mem_of_find?_eq_some hfind)
  have hid : sqlTrim i.securityId = sqlTrim r.securityId := by
    rw [h.blanks r hr]
    simpa using List.find?_some hfind
  have hone : (market.instruments.filter fun i => sqlTrim i.securityId = sqlTrim r.securityId) =
      [i] := by
    rw [← hid]
    exact Table.filter_key_eq h.instruments hi
  rw [hone, hrate]
  simp [authoritativeRate_eq h hi hfx, pure, Except.pure, bind, Except.bind]

/-- **The same rows at the same rates.** -/
theorem ratedRows_eq (h : ReadAlike market portfolio table)
    (hrecord : aggregateDate portfolio date epoch market table = .ok record) :
    ratedRows market portfolio date epoch table =
      .ok (aggregatedRows market portfolio date epoch table) := by
  unfold ratedRows fetchAuthoritativePositionTimeseriesRows
  rw [rankedPositionRows_eq h]
  refine except_mapM_flatMap fun r hr => ?_
  have hcs : ∃ cs, (getAllPositionTimeseriesForDate table portfolio.portfolioId date epoch).mapM
      (contributionOf market (normalizeCurrency portfolio.baseCurrency)) = .ok cs := by
    unfold aggregateDate calculateDailyRecord at hrecord
    dsimp only at hrecord
    split_ifs at hrecord
    · cases hrecord
    obtain ⟨cs, hcs, -⟩ := except_bind_eq_ok.mp hrecord
    exact ⟨cs, hcs⟩
  obtain ⟨c, hc⟩ := except_mapM_exists_ok.mp hcs r hr
  have hmem : r ∈ table := by
    unfold getAllPositionTimeseriesForDate at hr
    rw [mem_insertionSort, mem_filter, mem_filter] at hr
    exact hr.1.1
  exact joined_rate_eq h hmem hc

end Agreement

/-- A position day with one amount in all its columns. -/
def plainRow (securityId : String) (x : ℚ) : PositionTimeseriesRecord where
  portfolioId := "P1"
  securityId := securityId
  date := 1
  epoch := 0
  bodMarketValue := x
  bodCashflowPosition := 0
  eodCashflowPosition := 0
  bodCashflowPortfolio := x
  eodCashflowPortfolio := x
  eodMarketValue := x
  fees := x
  quantity := 0
  cost := 0

/-- Two instruments, the first in the given currency, and a rate from euros to dollars. -/
def twoInstruments (currency : String) : TimeseriesMarketData where
  instruments := [⟨" S1 ", currency⟩, ⟨"S2", "eur"⟩]
  fxRate source target day :=
    if source = "EUR" ∧ target = "USD" then
      some ⟨11 / 10, "EUR", "USD", day, some 1, some ⟨0, true⟩⟩
    else none

def dollarPortfolio : PortfolioAggregationScope := ⟨"T1", "P1", "USD"⟩

end LotusCore.Reconciliation
