import LotusCore.DerivedState.PortfolioDay
import LotusCore.Data.Ordered
import Mathlib.Data.Int.Interval

/-!
# Portfolio flows over a range of dates

Every date of a range is aggregated from the latest position day of each security. A security that
has no row of its own on a date is represented by an older one, with the flows and the opening
value of that older day.

* `latestRow`, `rowOn`: the latest row of a security, and its row of a date.
* `aggregateDate_eq_ok`: a portfolio day is the sum of the latest rows.
* `dayTotal_eq`: it consists of the rows of its date and of the rows carried to it.
* **`flowsCountedOnce_iff`**: when the portfolio days count every flow once and continue from one
  date to the next.
-/

namespace LotusCore.DerivedState

open Decimal Table List

/-- The position days of one epoch of a portfolio in its own currency, one for each security and
date. Around their ids stand blanks at most, which both trims remove. -/
structure OwnCurrencyRows (portfolio : PortfolioAggregationScope) (market : TimeseriesMarketData)
    (epoch : ℕ) (rows : List PositionTimeseriesRecord) : Prop where
  portfolio_named : strip portfolio.portfolioId ≠ ""
  currency_named : normalizeCurrency portfolio.baseCurrency ≠ ""
  ofPortfolio : ∀ r ∈ rows, strip r.portfolioId = strip portfolio.portfolioId
  trimmed : ∀ r ∈ rows, sqlTrim r.portfolioId = strip r.portfolioId ∧
    sqlTrim r.securityId = strip r.securityId
  named : ∀ r ∈ rows, strip r.securityId ≠ ""
  inCurrency : ∀ r ∈ rows,
    (market.instruments.reverse.find? fun i => sqlTrim i.securityId = strip r.securityId).map
      (fun instrument => normalizeCurrency instrument.currency) =
    some (normalizeCurrency portfolio.baseCurrency)
  ofEpoch : ∀ r ∈ rows, r.epoch = epoch
  oneRow : (rows.map fun r => (strip r.securityId, r.date)).Nodup
  stored : ∀ r ∈ rows, ∀ a : PortfolioAmount, Storable (a.ofPosition r)

section Rows

variable (rows : List PositionTimeseriesRecord)

def securities : Finset String := (rows.map fun r => strip r.securityId).toFinset

def rowOn (security : String) (date : ℤ) : Option PositionTimeseriesRecord :=
  row? (fun r => (strip r.securityId, r.date)) rows (security, date)

def latestRow (security : String) (date : ℤ) : Option PositionTimeseriesRecord :=
  Ordered.latest (·.date) (rows.filter fun r => strip r.securityId = security ∧ r.date ≤ date)

def amountOf (a : PortfolioAmount) (row : Option PositionTimeseriesRecord) : ℚ :=
  row.elim 0 a.ofPosition

def dayTotal (a : PortfolioAmount) (date : ℤ) : ℚ :=
  ∑ s ∈ securities rows, amountOf a (latestRow rows s date)

def datedTotal (a : PortfolioAmount) (date : ℤ) : ℚ :=
  ∑ s ∈ securities rows, amountOf a (rowOn rows s date)

/-- The sum of an amount over the rows carried to a date on which their security has none. -/
def carriedTotal (a : PortfolioAmount) (date : ℤ) : ℚ :=
  ∑ s ∈ securities rows with rowOn rows s date = none, amountOf a (latestRow rows s (date - 1))

/-- The row starts from the end value of the row before it. -/
def StartsFromPrevious (r : PositionTimeseriesRecord) : Prop :=
  ∃ q ∈ latestRow rows (strip r.securityId) (r.date - 1), r.bodMarketValue = q.eodMarketValue
  deriving Decidable

/-- The end values that rows of a date do not start from. -/
def abandonedTotal (date : ℤ) : ℚ :=
  ∑ s ∈ securities rows, (rowOn rows s date).elim 0 fun r =>
    if StartsFromPrevious rows r then 0
    else amountOf .eodMarketValue (latestRow rows s (date - 1))

end Rows

variable {r : PositionTimeseriesRecord} {d : ℤ}

section Lookup

variable {rows : List PositionTimeseriesRecord}
  (hkeys : (rows.map fun r => (strip r.securityId, r.date)).Nodup)
include hkeys

theorem rowOn_eq_some {s : String} :
    rowOn rows s d = some r ↔ r ∈ rows ∧ strip r.securityId = s ∧ r.date = d := by
  unfold rowOn
  constructor
  · intro h
    have hkey := row?_key h
    exact ⟨row?_mem h, congrArg Prod.fst hkey, congrArg Prod.snd hkey⟩
  · rintro ⟨hr, rfl, rfl⟩
    exact row?_eq_some hkeys hr

theorem latestRow_eq_some {s : String} : latestRow rows s d = some r ↔
      r ∈ rows ∧ strip r.securityId = s ∧ r.date ≤ d ∧
        ∀ q ∈ rows, strip q.securityId = s → q.date ≤ d → q.date ≤ r.date := by
  have hmem : ∀ q, q ∈ rows.filter (fun r => strip r.securityId = s ∧ r.date ≤ d) ↔
      q ∈ rows ∧ strip q.securityId = s ∧ q.date ≤ d := by
    intro q
    simp [mem_filter]
  unfold latestRow
  constructor
  · intro h
    obtain ⟨hr, hs, hd⟩ := (hmem r).mp (Ordered.latest_mem h)
    refine ⟨hr, hs, hd, fun q hq hqs hqd => ?_⟩
    exact Ordered.le_latest h ((hmem q).mpr ⟨hq, hqs, hqd⟩)
  · rintro ⟨hr, hs, hd, hlast⟩
    have hcand := (hmem r).mpr ⟨hr, hs, hd⟩
    cases h : Ordered.latest (·.date)
        (rows.filter fun r => strip r.securityId = s ∧ r.date ≤ d) with
    | none =>
      rw [Ordered.latest_eq_none.mp h] at hcand
      exact absurd hcand not_mem_nil
    | some q =>
      obtain ⟨hq, hqs, hqd⟩ := (hmem q).mp (Ordered.latest_mem h)
      have hle := hlast q hq hqs hqd
      have hge : r.date ≤ q.date := Ordered.le_latest h hcand
      have hkey : (strip q.securityId, q.date) = (strip r.securityId, r.date) :=
        Prod.ext (hqs.trans hs.symm) (le_antisymm hle hge)
      rw [eq_of_key hkeys hq hr hkey]

theorem latestRow_eq_or (s : String) (d : ℤ) :
    latestRow rows s d = (rowOn rows s d).or (latestRow rows s (d - 1)) := by
  cases h : rowOn rows s d with
  | some r =>
    obtain ⟨hr, hs, hd⟩ := (rowOn_eq_some hkeys).mp h
    rw [Option.some_or, latestRow_eq_some hkeys]
    exact ⟨hr, hs, hd.le, fun q _ _ hq => hd ▸ hq⟩
  | none =>
    rw [Option.none_or]
    unfold latestRow
    congr 1
    refine filter_congr fun r hr => ?_
    have hne : strip r.securityId = s → r.date ≠ d := by
      intro hs hd
      rw [(rowOn_eq_some hkeys).mpr ⟨hr, hs, hd⟩] at h
      cases h
    grind

theorem sum_rowOn (d : ℤ) (f : PositionTimeseriesRecord → ℚ) :
    ((rows.filter fun r => r.date = d).map f).sum =
      ∑ s ∈ securities rows, (rowOn rows s d).elim 0 f := by
  refine sum_by_key (fun r => strip r.securityId) (hkeys.of_map.filter _) (fun r hr => ?_)
    (fun s r => ?_) f
  · exact mem_toFinset.mpr (mem_map_of_mem (mem_of_mem_filter hr))
  · rw [rowOn_eq_some hkeys, mem_filter]
    grind

theorem dayTotal_eq (a : PortfolioAmount) (d : ℤ) :
    dayTotal rows a d = datedTotal rows a d + carriedTotal rows a d := by
  unfold dayTotal datedTotal carriedTotal
  rw [Finset.sum_filter, ← Finset.sum_add_distrib]
  refine Finset.sum_congr rfl fun s _ => ?_
  rw [latestRow_eq_or hkeys]
  cases h : rowOn rows s d with
  | none => simp [amountOf]
  | some r => simp [amountOf]

end Lookup

section Aggregation

variable {portfolio : PortfolioAggregationScope} {market : TimeseriesMarketData} {epoch : ℕ}
  {rows : List PositionTimeseriesRecord} (h : OwnCurrencyRows portfolio market epoch rows)
include h

theorem mem_getAllPositionTimeseriesForDate :
    r ∈ getAllPositionTimeseriesForDate rows portfolio.portfolioId d epoch ↔
      latestRow rows (strip r.securityId) d = some r := by
  have hcand : ∀ q, q ∈ rows.filter (fun r =>
      sqlTrim r.portfolioId = strip portfolio.portfolioId ∧ r.date ≤ d ∧ r.epoch ≤ epoch) ↔
      q ∈ rows ∧ q.date ≤ d := by
    intro q
    simp only [mem_filter, decide_eq_true_eq]
    constructor
    · exact fun hq => ⟨hq.1, hq.2.2.1⟩
    · exact fun hq => ⟨hq.1, (h.trimmed q hq.1).1.trans (h.ofPortfolio q hq.1), hq.2,
        (h.ofEpoch q hq.1).le⟩
  have hsame : ∀ q ∈ rows, ∀ r ∈ rows, sqlTrim q.securityId = sqlTrim r.securityId ↔
      strip q.securityId = strip r.securityId := by
    intro q hq r hr
    rw [(h.trimmed q hq).2, (h.trimmed r hr).2]
  unfold getAllPositionTimeseriesForDate
  rw [(perm_insertionSort _ _).mem_iff, mem_filter, hcand, latestRow_eq_some h.oneRow,
    decide_eq_true_eq]
  constructor
  · rintro ⟨⟨hr, hd⟩, hlast⟩
    refine ⟨hr, rfl, hd, fun q hq hs hqd => ?_⟩
    rcases hlast q ((hcand q).mpr ⟨hq, hqd⟩) ((hsame q hq r hr).mpr hs) with hlt | heq
    · exact hlt.le
    · exact heq.1.le
  · rintro ⟨hr, -, hd, hlast⟩
    refine ⟨⟨hr, hd⟩, fun q hq hs => ?_⟩
    obtain ⟨hq, hqd⟩ := (hcand q).mp hq
    rcases (hlast q hq ((hsame q hq r hr).mp hs) hqd).lt_or_eq with hlt | heq
    · exact .inl hlt
    · exact .inr ⟨heq, (h.ofEpoch q hq).trans (h.ofEpoch r hr).symm |>.le⟩

theorem nodup_getAllPositionTimeseriesForDate (d : ℤ) :
    (getAllPositionTimeseriesForDate rows portfolio.portfolioId d epoch).Nodup :=
  (perm_insertionSort _ _).nodup_iff.mpr ((h.oneRow.of_map.filter _).filter _)

theorem amountSum_getAllPositionTimeseriesForDate (d : ℤ) (a : PortfolioAmount) :
    amountSum a (getAllPositionTimeseriesForDate rows portfolio.portfolioId d epoch) =
      dayTotal rows a d := by
  refine sum_by_key (fun r => strip r.securityId) (nodup_getAllPositionTimeseriesForDate h d)
    (fun r hr => ?_) (fun s r => ?_) _
  · have hr' := (mem_getAllPositionTimeseriesForDate h).mp hr
    exact mem_toFinset.mpr (mem_map_of_mem ((latestRow_eq_some h.oneRow).mp hr').1)
  · rw [mem_getAllPositionTimeseriesForDate h]
    constructor
    · intro hs
      have hsec := ((latestRow_eq_some h.oneRow).mp hs).2.1
      exact ⟨hsec.symm ▸ hs, hsec⟩
    · rintro ⟨hr, rfl⟩
      exact hr

theorem aggregable (d : ℤ) : Aggregable portfolio d epoch
    (getAllPositionTimeseriesForDate rows portfolio.portfolioId d epoch) := by
  have hmem : ∀ r ∈ getAllPositionTimeseriesForDate rows portfolio.portfolioId d epoch,
      r ∈ rows ∧ r.date ≤ d := by
    intro r hr
    have hr' := (latestRow_eq_some h.oneRow).mp ((mem_getAllPositionTimeseriesForDate h).mp hr)
    exact ⟨hr'.1, hr'.2.2.1⟩
  constructor
  · exact fun r hr => h.ofPortfolio r (hmem r hr).1
  · exact fun r hr => ⟨(hmem r hr).2, (h.ofEpoch r (hmem r hr).1).le⟩
  · refine (nodup_getAllPositionTimeseriesForDate h d).map_on fun r hr q hq he => ?_
    have hr' := (mem_getAllPositionTimeseriesForDate h).mp hr
    have hq' := (mem_getAllPositionTimeseriesForDate h).mp hq
    rw [he, hq'] at hr'
    exact (Option.some.inj hr').symm
  · exact fun r hr => h.stored r (hmem r hr).1

/-- **A portfolio day holds the sums of the latest rows of its securities**, provided they fit. -/
theorem aggregateDate_eq_ok (hn : rows.length ≤ 10 ^ 46) {record : PortfolioTimeseriesRecord} :
    aggregateDate portfolio d epoch market rows = .ok record ↔
      (∀ a, Storable (dayTotal rows a d)) ∧
        record = portfolioDay portfolio d epoch fun a => dayTotal rows a d := by
  have hlen : (getAllPositionTimeseriesForDate rows portfolio.portfolioId d epoch).length ≤
      10 ^ 46 := by
    refine le_trans ?_ hn
    unfold getAllPositionTimeseriesForDate
    rw [(perm_insertionSort _ _).length_eq]
    exact (length_filter_le _ _).trans (length_filter_le _ _)
  have hmap : (getAllPositionTimeseriesForDate rows portfolio.portfolioId d epoch).mapM
      (contributionOf market (normalizeCurrency portfolio.baseCurrency)) =
      .ok ((getAllPositionTimeseriesForDate rows portfolio.portfolioId d epoch).map
        (ownCurrencyContribution (normalizeCurrency portfolio.baseCurrency))) := by
    refine Exec.except_mapM_eq_map fun r hr => ?_
    have hr' := ((latestRow_eq_some h.oneRow).mp ((mem_getAllPositionTimeseriesForDate h).mp hr)).1
    obtain ⟨instrument, hfind, hcurrency⟩ := Option.map_eq_some_iff.mp (h.inCurrency r hr')
    exact contributionOf_ownCurrency h.currency_named (h.named r hr') hfind hcurrency
  have hsum : calculatePortfolioTimeseries portfolio d epoch
      ((getAllPositionTimeseriesForDate rows portfolio.portfolioId d epoch).map
        (ownCurrencyContribution (normalizeCurrency portfolio.baseCurrency))) = .ok record ↔ _ :=
    calculatePortfolioTimeseries_eq_ok h.portfolio_named (aggregable h d) hlen
  simp only [amountSum_getAllPositionTimeseriesForDate h] at hsum
  rw [← hsum]
  simp only [aggregateDate, calculateDailyRecord, h.currency_named, if_false]
  change (_ >>= _) = _ ↔ _
  rw [hmap]
  exact Iff.rfl

end Aggregation

/-! ## Ranges of dates -/

def PortfolioAmount.isFlow : PortfolioAmount → Bool
  | .bodCashflow | .eodCashflow | .fees => true
  | .bodMarketValue | .eodMarketValue => false

/-- Every date of the range is aggregated, the flows of the portfolio days add up to those of the
position days of the range, and each portfolio day opens with the end value of the day before, apart
from the rows that do not start from the row before them. The day before the first one is empty. -/
def FlowsCountedOnce (portfolio : PortfolioAggregationScope) (market : TimeseriesMarketData)
    (epoch : ℕ) (rows : List PositionTimeseriesRecord) (first last : ℤ) : Prop :=
  ∃ day : ℤ → PortfolioTimeseriesRecord,
    (∀ d ∈ Finset.Icc (first - 1) last,
      aggregateDate portfolio d epoch market rows = .ok (day d)) ∧
    (∀ a : PortfolioAmount, a.isFlow →
      ∑ d ∈ Finset.Icc first last, a.ofPortfolio (day d) =
        amountSum a (rows.filter fun r => first ≤ r.date ∧ r.date ≤ last)) ∧
    ∀ d ∈ Finset.Icc first last, (day d).bodMarketValue = (day (d - 1)).eodMarketValue +
      ((rows.filter fun r => r.date = d ∧ ¬ StartsFromPrevious rows r).map
        (·.bodMarketValue)).sum

/-- The totals of every date fit, the flows of the carried rows cancel over the range, and on every
date the carried rows move from opening to end value by what other rows leave behind. -/
structure CarriesNothing (rows : List PositionTimeseriesRecord) (first last : ℤ) : Prop where
  fits : ∀ d ∈ Finset.Icc first last, ∀ a, Storable (dayTotal rows a d)
  flows : ∀ a : PortfolioAmount, a.isFlow → ∑ d ∈ Finset.Icc first last, carriedTotal rows a d = 0
  values : ∀ d ∈ Finset.Icc first last,
    carriedTotal rows .bodMarketValue d =
      carriedTotal rows .eodMarketValue d + abandonedTotal rows d

section Range

variable {rows : List PositionTimeseriesRecord} {first last : ℤ}

theorem sum_rows_of_range (f : PositionTimeseriesRecord → ℚ) :
    ((rows.filter fun r => first ≤ r.date ∧ r.date ≤ last).map f).sum =
      ∑ d ∈ Finset.Icc first last, ((rows.filter fun r => r.date = d).map f).sum := by
  induction rows with
  | nil => simp
  | cons r rest ih =>
    have hone : ∀ d, ((List.filter (fun r => r.date = d) (r :: rest)).map f).sum =
        (if d = r.date then f r else 0) + ((rest.filter fun r => r.date = d).map f).sum := by
      intro d
      by_cases hd : r.date = d
      · simp [hd]
      · simp [hd, Ne.symm hd]
    simp only [hone, Finset.sum_add_distrib, Finset.sum_ite_eq', Finset.mem_Icc, ← ih]
    by_cases hr : first ≤ r.date ∧ r.date ≤ last
    · simp [hr]
    · simp [hr]

theorem sum_filter_and {p q : PositionTimeseriesRecord → Prop} [DecidablePred p] [DecidablePred q]
    (f : PositionTimeseriesRecord → ℚ) :
    ((rows.filter fun r => p r ∧ ¬ q r).map f).sum =
      ((rows.filter fun r => p r).map fun r => if q r then 0 else f r).sum := by
  induction rows with
  | nil => rfl
  | cons r rest ih =>
    by_cases hp : p r
    · by_cases hq : q r
      · simpa [hp, hq] using ih
      · simpa [hp, hq] using ih
    · simpa [hp] using ih

variable (hkeys : (rows.map fun r => (strip r.securityId, r.date)).Nodup)
include hkeys

theorem sum_datedTotal (a : PortfolioAmount) :
    ∑ d ∈ Finset.Icc first last, datedTotal rows a d =
      amountSum a (rows.filter fun r => first ≤ r.date ∧ r.date ≤ last) := by
  unfold amountSum datedTotal amountOf
  rw [sum_rows_of_range]
  exact Finset.sum_congr rfl fun d _ => (sum_rowOn hkeys d a.ofPosition).symm

/-- What a date opens with beyond the end value of the day before. -/
theorem dayTotal_bodMarketValue (d : ℤ) :
    dayTotal rows .bodMarketValue d + carriedTotal rows .eodMarketValue d +
        abandonedTotal rows d =
      dayTotal rows .eodMarketValue (d - 1) + carriedTotal rows .bodMarketValue d +
        ((rows.filter fun r => r.date = d ∧ ¬ StartsFromPrevious rows r).map
          (·.bodMarketValue)).sum := by
  rw [sum_filter_and, sum_rowOn hkeys, dayTotal_eq hkeys]
  unfold dayTotal datedTotal carriedTotal abandonedTotal
  simp only [Finset.sum_filter, ← Finset.sum_add_distrib]
  refine Finset.sum_congr rfl fun s _ => ?_
  cases hrow : rowOn rows s d with
  | none =>
    simp only [amountOf, Option.elim_none, if_true]
    ring
  | some r =>
    obtain ⟨-, hs, hd⟩ := (rowOn_eq_some hkeys).mp hrow
    simp only [reduceCtorEq, if_false, Option.elim_some]
    by_cases hstart : StartsFromPrevious rows r
    · obtain ⟨q, hq, hvalue⟩ := hstart
      rw [hs, hd, Option.mem_def] at hq
      have hstart : StartsFromPrevious rows r := ⟨q, by rw [hs, hd]; exact hq, hvalue⟩
      simp only [hstart, if_true, hq, amountOf, Option.elim_some, PortfolioAmount.ofPosition]
      rw [hvalue]
      ring
    · simp only [hstart, if_false, amountOf, Option.elim_some, PortfolioAmount.ofPosition]
      ring

end Range

theorem dayTotal_eq_zero {rows : List PositionTimeseriesRecord}
    (hbefore : ∀ r ∈ rows, d < r.date) (a : PortfolioAmount) : dayTotal rows a d = 0 := by
  refine Finset.sum_eq_zero fun s _ => ?_
  have hnone : rows.filter (fun r => strip r.securityId = s ∧ r.date ≤ d) = [] := by
    rw [filter_eq_nil_iff]
    intro r hr
    simp [(hbefore r hr).not_ge]
  rw [latestRow, hnone]
  rfl

/-- **Flows over a range.** The portfolio days of a range that starts with the first position day
count every flow once, and continue from date to date, exactly when what is carried to dates without
a row of its own cancels. -/
theorem flowsCountedOnce_iff {portfolio : PortfolioAggregationScope}
    {market : TimeseriesMarketData} {epoch : ℕ} {rows : List PositionTimeseriesRecord}
    {first last : ℤ} (h : OwnCurrencyRows portfolio market epoch rows)
    (hfirst : ∀ r ∈ rows, first ≤ r.date) (hn : rows.length ≤ 10 ^ 46) :
    FlowsCountedOnce portfolio market epoch rows first last ↔ CarriesNothing rows first last := by
  have hsplit : ∀ a, ∑ d ∈ Finset.Icc first last, dayTotal rows a d =
      amountSum a (rows.filter fun r => first ≤ r.date ∧ r.date ≤ last) +
        ∑ d ∈ Finset.Icc first last, carriedTotal rows a d := by
    intro a
    rw [← sum_datedTotal h.oneRow, ← Finset.sum_add_distrib]
    exact Finset.sum_congr rfl fun d _ => dayTotal_eq h.oneRow a d
  have hsub : ∀ d ∈ Finset.Icc first last,
      d ∈ Finset.Icc (first - 1) last ∧ d - 1 ∈ Finset.Icc (first - 1) last := by
    intro d hd
    simp only [Finset.mem_Icc] at hd ⊢
    omega
  constructor
  · rintro ⟨day, hday, hflows, hvalues⟩
    have hspec := fun d hd => (aggregateDate_eq_ok h hn).mp (hday d hd)
    refine ⟨fun d hd => (hspec d (hsub d hd).1).1, fun a ha => ?_, fun d hd => ?_⟩
    · have hsum := hflows a ha
      rw [Finset.sum_congr rfl fun d hd => congrArg (PortfolioAmount.ofPortfolio · a)
        (hspec d (hsub d hd).1).2] at hsum
      simp only [ofPortfolio_portfolioDay] at hsum
      linarith [hsplit a]
    · have hvalue := hvalues d hd
      rw [(hspec d (hsub d hd).1).2, (hspec (d - 1) (hsub d hd).2).2] at hvalue
      simp only [portfolioDay] at hvalue
      linarith [dayTotal_bodMarketValue h.oneRow d]
  · intro hc
    refine ⟨fun d => portfolioDay portfolio d epoch fun a => dayTotal rows a d, fun d hd => ?_,
      fun a ha => ?_, fun d hd => ?_⟩
    · rw [aggregateDate_eq_ok h hn]
      refine ⟨fun a => ?_, rfl⟩
      rcases (Finset.mem_Icc.mp hd).1.eq_or_lt with hd' | hd'
      · rw [← hd', dayTotal_eq_zero fun r hr => by have := hfirst r hr; omega]
        exact storable_zero
      · exact hc.fits d (Finset.mem_Icc.mpr ⟨by omega, (Finset.mem_Icc.mp hd).2⟩) a
    · simp only [ofPortfolio_portfolioDay]
      rw [hsplit, hc.flows a ha, add_zero]
    · simp only [portfolioDay]
      linarith [dayTotal_bodMarketValue h.oneRow d, hc.values d hd]

def exampleRow (security : String) (date : ℤ) (opening deposit closing : ℚ) :
    PositionTimeseriesRecord where
  portfolioId := "P"
  securityId := security
  date := date
  epoch := 0
  bodMarketValue := opening
  bodCashflowPosition := 0
  eodCashflowPosition := 0
  bodCashflowPortfolio := deposit
  eodCashflowPortfolio := 0
  eodMarketValue := closing
  fees := 0
  quantity := 1
  cost := 0

def examplePortfolio : PortfolioAggregationScope := ⟨"T", "P", "USD"⟩

def exampleMarket : TimeseriesMarketData := ⟨[⟨"A", "USD"⟩, ⟨"B", "USD"⟩], fun _ _ _ => none⟩

theorem daily_rows_counted_once :
    FlowsCountedOnce examplePortfolio exampleMarket 0
      [exampleRow "A" 1 0 5 100, exampleRow "B" 1 0 0 50, exampleRow "A" 2 100 0 110,
        exampleRow "B" 2 50 0 60] 1 2 := by
  refine (flowsCountedOnce_iff ?_ (by decide) (by decide)).mpr ?_
  · exact ⟨by decide, by decide, by decide, by decide +kernel, by decide, by decide +kernel,
      by decide, by decide, by decide +kernel⟩
  · exact ⟨by decide +kernel, by decide +kernel, by decide +kernel⟩

/-- The deposit into the first security is counted on the second day again, on which only the second
security has a row. -/
theorem carried_deposit_counted_twice :
    OwnCurrencyRows examplePortfolio exampleMarket 0
      [exampleRow "A" 1 0 5 100, exampleRow "B" 1 0 0 50, exampleRow "B" 2 50 0 60] ∧
    ¬ FlowsCountedOnce examplePortfolio exampleMarket 0
      [exampleRow "A" 1 0 5 100, exampleRow "B" 1 0 0 50, exampleRow "B" 2 50 0 60] 1 2 := by
  constructor
  · exact ⟨by decide, by decide, by decide, by decide +kernel, by decide, by decide +kernel,
      by decide, by decide, by decide +kernel⟩
  · rintro ⟨day, hday, hflows, -⟩
    have hone : aggregateDate examplePortfolio 1 0 exampleMarket [exampleRow "A" 1 0 5 100,
        exampleRow "B" 1 0 0 50, exampleRow "B" 2 50 0 60] = .ok ⟨"P", 1, 0, 0, 5, 0, 150, 0⟩ := by
      decide +kernel
    have htwo : aggregateDate examplePortfolio 2 0 exampleMarket [exampleRow "A" 1 0 5 100,
        exampleRow "B" 1 0 0 50, exampleRow "B" 2 50 0 60] = .ok ⟨"P", 2, 0, 50, 5, 0, 160, 0⟩ := by
      decide +kernel
    have hsum := hflows .bodCashflow rfl
    have hdates : Finset.Icc (1 : ℤ) 2 = {1, 2} := by decide
    rw [hdates, Finset.sum_pair (by decide),
      ← Except.ok.inj (hone.symm.trans (hday 1 (by decide))),
      ← Except.ok.inj (htwo.symm.trans (hday 2 (by decide)))] at hsum
    revert hsum
    decide +kernel

end LotusCore.DerivedState
