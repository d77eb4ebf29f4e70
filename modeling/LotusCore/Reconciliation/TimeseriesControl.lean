import LotusCore.DerivedState.PortfolioDay

/-!
# The control of portfolio days

The reconciliation service adds up the position days of a portfolio day once more, with its own
reading of the rows, its own comparison of currencies and the default decimal context, and compares
each amount with the stored row.

* `fetchAuthoritativePositionTimeseriesRows`: the rows of the control.
* `ratedRows`: their exchange rates; a row without one is left out of the sums.
* `timeseriesAggregateMismatches`: the amounts that differ by more than a tolerance.
-/

namespace LotusCore.Reconciliation

open Decimal DerivedState

/-! ## Rows -/

/-- `ranked_position_rows`: of the rows up to the date and the epoch those that no other row of
their security follows, by security. Securities and the portfolio are told apart by their ids as
stored. -/
def rankedPositionRows (table : List PositionTimeseriesRecord) (portfolioId : String) (date : ℤ)
    (epoch : ℕ) : List PositionTimeseriesRecord :=
  let candidates := table.filter fun r =>
    r.portfolioId = portfolioId ∧ r.date ≤ date ∧ r.epoch ≤ epoch
  (candidates.filter fun r => ∀ q ∈ candidates, q.securityId = r.securityId →
    q.date < r.date ∨ (q.date = r.date ∧ q.epoch ≤ r.epoch)).insertionSort
      fun a b => a.securityId ≤ b.securityId

/-- `fetch_authoritative_position_timeseries_rows`: each ranked row with every instrument of its
trimmed id. -/
def fetchAuthoritativePositionTimeseriesRows (table : List PositionTimeseriesRecord)
    (instruments : List TimeseriesInstrument) (portfolioId : String) (date : ℤ) (epoch : ℕ) :
    List (PositionTimeseriesRecord × TimeseriesInstrument) :=
  (rankedPositionRows table portfolioId date epoch).flatMap fun r =>
    (instruments.filter fun i => sqlTrim i.securityId = sqlTrim r.securityId).map fun i => (r, i)

/-! ## Exchange rates -/

def requiresAuthoritativeFxRate (fromCurrency toCurrency : String) : Bool :=
  fromCurrency ≠ "" ∧ toCurrency ≠ "" ∧ fromCurrency ≠ toCurrency

variable (market : TimeseriesMarketData)

/-- `fetch_latest_fx_rates` for one key: the same read as `get_fx_rate`. What is missing or not
positive counts as zero. -/
def latestFxRate (fromCurrency toCurrency : String) (date : ℤ) : ℚ :=
  match market.fxRate fromCurrency toCurrency date with
  | some fxRate => if 0 < fxRate.rate then fxRate.rate else 0
  | none => 0

/-- The rate of a row on its own date, with `_authoritative_fx_lookup_key`. The currencies are
compared as stored, without blanks around them. -/
def authoritativeRate (baseCurrency instrumentCurrency : String) (date : ℤ) : Except Raised ℚ :=
  let fromCurrency := strip instrumentCurrency
  let toCurrency := strip baseCurrency
  if requiresAuthoritativeFxRate fromCurrency toCurrency then do
    let source ← normalizeCurrencyCode fromCurrency
    let target ← normalizeCurrencyCode toCurrency
    .ok (latestFxRate market source target date)
  else .ok 1

def ratedRows (portfolio : PortfolioAggregationScope) (date : ℤ) (epoch : ℕ)
    (table : List PositionTimeseriesRecord) : Except Raised (List (PositionTimeseriesRecord × ℚ)) :=
  (fetchAuthoritativePositionTimeseriesRows table market.instruments portfolio.portfolioId date
    epoch).mapM fun row => do
      let rate ← authoritativeRate market portfolio.baseCurrency row.2.currency row.1.date
      .ok (row.1, rate)

/-! ## Sums and comparison -/

/-- `_add_authoritative_position_metrics`, with the test that skips a row without a rate. -/
def addAuthoritativePositionMetrics (metrics : PortfolioAmount → ℚ)
    (row : PositionTimeseriesRecord × ℚ) : PortfolioAmount → ℚ :=
  if row.2 = 0 then metrics
  else fun a => ambientContext.round (metrics a + ambientContext.round (a.ofPosition row.1 * row.2))

/-- `_aggregate_authoritative_portfolio_metrics`, after its reads. -/
def aggregateAuthoritativePortfolioMetrics (rated : List (PositionTimeseriesRecord × ℚ)) :
    PortfolioAmount → ℚ :=
  rated.foldl addAuthoritativePositionMetrics fun _ => 0

variable (record : PortfolioTimeseriesRecord)

def metricDelta (metrics : PortfolioAmount → ℚ) (a : PortfolioAmount) : ℚ :=
  ambientContext.round (a.ofPortfolio record - metrics a)

/-- `_timeseries_metric_mismatches`, by the amounts it names. -/
def timeseriesMetricMismatches (metrics : PortfolioAmount → ℚ) (tolerance : ℚ)
    : List PortfolioAmount :=
  [.bodMarketValue, .bodCashflow, .eodCashflow, .eodMarketValue, .fees].filter fun a =>
    tolerance < |metricDelta record metrics a|

/-- The aggregate mismatches of `_timeseries_integrity_findings_for_key`: without any row the
control reports that the position days are missing, and compares nothing. -/
def timeseriesAggregateMismatches (rated : List (PositionTimeseriesRecord × ℚ)) (tolerance : ℚ)
    : List PortfolioAmount :=
  if rated = [] then []
  else timeseriesMetricMismatches record (aggregateAuthoritativePortfolioMetrics rated) tolerance

end LotusCore.Reconciliation
