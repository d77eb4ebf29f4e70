import LotusCore.DerivedState.PositionDay
import Mathlib.Algebra.BigOperators.Intervals

/-!
# Portfolio days

A portfolio day adds up the latest position day of each security on or before its date, in the
portfolio's currency.

* `getAllPositionTimeseriesForDate`: the rows of a date; a security without a row of its own is
  represented by its last one.
* `calculateDailyRecord`, `calculatePortfolioTimeseries`: the exchange rates and the sums.
-/

namespace LotusCore.DerivedState

open Decimal Ledger List

/-! ## Records -/

/-- The portfolio a day is aggregated for. -/
structure PortfolioAggregationScope where
  tenantId : String
  portfolioId : String
  baseCurrency : String
  deriving DecidableEq

/-- A row of `portfolio_timeseries`. -/
structure PortfolioTimeseriesRecord where
  portfolioId : String
  date : ℤ
  epoch : ℕ
  bodMarketValue : ℚ
  bodCashflow : ℚ
  eodCashflow : ℚ
  eodMarketValue : ℚ
  fees : ℚ
  deriving DecidableEq

/-- An instrument and its currency. -/
structure TimeseriesInstrument where
  securityId : String
  currency : String
  deriving DecidableEq

/-- A rate with the record it comes from. -/
structure TimeseriesFxRate where
  rate : ℚ
  fromCurrency : String
  toCurrency : String
  rateDate : ℤ
  sourceRecordId : Option ℤ
  sourceUpdatedAt : Option Timestamp
  deriving DecidableEq

/-- What the calculation reads besides the position days. -/
structure TimeseriesMarketData where
  instruments : List TimeseriesInstrument
  /-- `get_fx_rate` of a pair on a date. -/
  fxRate : String → String → ℤ → Option TimeseriesFxRate

/-- A position day with its rate. -/
structure PortfolioPositionContribution where
  positionTimeseries : PositionTimeseriesRecord
  fxRate : TimeseriesFxRate
  deriving DecidableEq

/-- The amounts of a portfolio day. -/
inductive PortfolioAmount
  | bodMarketValue | bodCashflow | eodCashflow | eodMarketValue | fees
  deriving DecidableEq, Repr

namespace PortfolioAmount

instance : Fintype PortfolioAmount where
  elems := {.bodMarketValue, .bodCashflow, .eodCashflow, .eodMarketValue, .fees}
  complete a := by cases a <;> decide

def fieldName : PortfolioAmount → String
  | .bodMarketValue => "bod_market_value"
  | .bodCashflow => "bod_cashflow"
  | .eodCashflow => "eod_cashflow"
  | .eodMarketValue => "eod_market_value"
  | .fees => "fees"

/-- What a position day contributes to an amount, before its exchange rate. -/
def ofPosition (position : PositionTimeseriesRecord) : PortfolioAmount → ℚ
  | .bodMarketValue => position.bodMarketValue
  | .bodCashflow => position.bodCashflowPortfolio
  | .eodCashflow => position.eodCashflowPortfolio
  | .eodMarketValue => position.eodMarketValue
  | .fees => position.fees

/-- An amount of a portfolio day. -/
def ofPortfolio (record : PortfolioTimeseriesRecord) : PortfolioAmount → ℚ
  | .bodMarketValue => record.bodMarketValue
  | .bodCashflow => record.bodCashflow
  | .eodCashflow => record.eodCashflow
  | .eodMarketValue => record.eodMarketValue
  | .fees => record.fees

end PortfolioAmount

/-- `PORTFOLIO_TIMESERIES_LEDGER_OUTPUT_V1`. -/
abbrev portfolioTimeseriesLedger : CalculatedDecimalPolicy :=
  ledgerPolicy "portfolio-timeseries-ledger-output" "1.0.0"

/-! ## The rows of a date -/

/-- `get_all_position_timeseries_for_date`: of the rows up to the date and the epoch those that no
other row of their security follows, by security. -/
def getAllPositionTimeseriesForDate (table : List PositionTimeseriesRecord) (portfolioId : String)
    (date : ℤ) (epoch : ℕ) : List PositionTimeseriesRecord :=
  let candidates := table.filter fun r =>
    sqlTrim r.portfolioId = strip portfolioId ∧ r.date ≤ date ∧ r.epoch ≤ epoch
  (candidates.filter fun r => ∀ q ∈ candidates, sqlTrim q.securityId = sqlTrim r.securityId →
    q.date < r.date ∨ (q.date = r.date ∧ q.epoch ≤ r.epoch)).insertionSort
      fun a b => a.securityId ≤ b.securityId

/-! ## Exchange rates -/

def normalizeCurrency (currency : String) : String := upper (strip currency)

/-- `_resolve_fx_rate`; a rate that was read once is read again with the same result. The texts
leave out the date. -/
def resolveFxRate (market : TimeseriesMarketData) (instrumentCurrency portfolioCurrency : String)
    (valuationDate : ℤ) : Except Raised TimeseriesFxRate :=
  if instrumentCurrency = portfolioCurrency then
    .ok ⟨1, instrumentCurrency, portfolioCurrency, valuationDate, none, none⟩
  else
    match market.fxRate instrumentCurrency portfolioCurrency valuationDate with
    | none => .error (.runtimeError ("Missing FX rate from " ++ instrumentCurrency ++ " to " ++
        portfolioCurrency))
    | some fxRate =>
      if fxRate.rate ≤ 0 then .error (.runtimeError ("Non-positive FX rate from " ++
        instrumentCurrency ++ " to " ++ portfolioCurrency))
      else if normalizeCurrency fxRate.fromCurrency ≠ instrumentCurrency ∨
          normalizeCurrency fxRate.toCurrency ≠ portfolioCurrency then
        .error (.runtimeError ("FX rate source identity does not match requested pair " ++
          instrumentCurrency ++ " to " ++ portfolioCurrency ++ "."))
      else .ok { fxRate with fromCurrency := instrumentCurrency, toCurrency := portfolioCurrency }

/-- `PortfolioPositionContribution.__post_init__`. -/
def PortfolioPositionContribution.new (position : PositionTimeseriesRecord)
    (fxRate : TimeseriesFxRate) : Except Raised PortfolioPositionContribution :=
  if strip position.securityId = "" then
    .error (.valueError "Portfolio position contribution requires a security identity.")
  else if fxRate.rate ≤ 0 then
    .error (.valueError "Portfolio position contribution requires a positive FX rate.")
  else if strip fxRate.fromCurrency = "" ∨ strip fxRate.toCurrency = "" then
    .error (.valueError "Portfolio position contribution requires an FX currency pair.")
  else if upper (strip fxRate.fromCurrency) = upper (strip fxRate.toCurrency) then
    if fxRate.rate ≠ 1 then
      .error (.valueError "Same-currency portfolio contributions require an identity FX rate.")
    else if fxRate.sourceRecordId.isSome ∨ fxRate.sourceUpdatedAt.isSome then
      .error (.valueError "Same-currency portfolio contributions cannot cite a persisted FX fact.")
    else .ok ⟨position, fxRate⟩
  else if fxRate.sourceRecordId.getD 0 < 1 then
    .error (.valueError
      "Cross-currency portfolio contributions require a persisted FX record identity.")
  else if fxRate.sourceUpdatedAt.elim true fun updated => !updated.aware then
    .error (.valueError
      "Cross-currency portfolio contributions require an aware FX source revision.")
  else .ok ⟨position, fxRate⟩

/-! ## The calculation -/

section Calculation

variable (portfolio : PortfolioAggregationScope) (aggregationDate : ℤ) (epoch : ℕ)

/-- The securities seen so far and the running totals. -/
structure PortfolioTotals where
  seenSecurityIds : List String := []
  total : PortfolioAmount → ℚ := fun _ => 0

/-- The loop body of `calculate_portfolio_timeseries`. -/
def addContribution (totals : PortfolioTotals) (contribution : PortfolioPositionContribution) :
    Except Raised PortfolioTotals :=
  let position := contribution.positionTimeseries
  let securityId := strip position.securityId
  if strip position.portfolioId ≠ strip portfolio.portfolioId then
    .error (.valueError "Position contribution belongs to a different portfolio scope.")
  else if aggregationDate < position.date ∨ epoch < position.epoch then
    .error (.valueError "Position contribution is later than the target business date or epoch.")
  else if securityId ∈ totals.seenSecurityIds then
    .error (.valueError "Portfolio aggregation received a duplicate security contribution.")
  else .ok
    { seenSecurityIds := securityId :: totals.seenSecurityIds
      total := fun a => portfolioTimeseriesLedger.round (totals.total a +
        portfolioTimeseriesLedger.round (a.ofPosition position * contribution.fxRate.rate)) }

/-- The totals, each in the precision of its column. -/
def PortfolioTotals.record (totals : PortfolioTotals) :
    Except Raised PortfolioTimeseriesRecord := do
  let normalize (a : PortfolioAmount) :=
    portfolioTimeseriesLedger.normalize (totals.total a) a.fieldName
  let bodMarketValue ← normalize .bodMarketValue
  let bodCashflow ← normalize .bodCashflow
  let eodCashflow ← normalize .eodCashflow
  let eodMarketValue ← normalize .eodMarketValue
  let fees ← normalize .fees
  .ok ⟨portfolio.portfolioId, aggregationDate, epoch, bodMarketValue, bodCashflow, eodCashflow,
    eodMarketValue, fees⟩

/-- `calculate_portfolio_timeseries`: the contributions are added in the order of their
securities. -/
def calculatePortfolioTimeseries (contributions : List PortfolioPositionContribution) :
    Except Raised PortfolioTimeseriesRecord := do
  if strip portfolio.portfolioId = "" then
    throw (.valueError "Portfolio aggregation requires an authoritative portfolio identity.")
  let ordered := contributions.insertionSort fun a b =>
    strip a.positionTimeseries.securityId ≤ strip b.positionTimeseries.securityId
  let totals ← ordered.foldlM (addContribution portfolio aggregationDate epoch) {}
  totals.record portfolio aggregationDate epoch

/-- The contribution of a position day, with the instrument and rate it needs. -/
def contributionOf (market : TimeseriesMarketData) (portfolioCurrency : String)
    (position : PositionTimeseriesRecord) : Except Raised PortfolioPositionContribution := do
  let securityId := strip position.securityId
  -- of several instruments of one id the last one read is kept
  match market.instruments.reverse.find? fun i => sqlTrim i.securityId = securityId with
  | none => throw (.runtimeError ("Missing instrument reference data for " ++ securityId ++ "."))
  | some instrument =>
    let instrumentCurrency := normalizeCurrency instrument.currency
    if instrumentCurrency = "" then
      throw (.runtimeError ("Instrument reference data for " ++ securityId ++ " has no currency."))
    let fxRate ← resolveFxRate market instrumentCurrency portfolioCurrency position.date
    PortfolioPositionContribution.new position fxRate

/-- The portfolio day of given position days. -/
def calculateDailyRecord (market : TimeseriesMarketData)
    (positions : List PositionTimeseriesRecord) : Except Raised PortfolioTimeseriesRecord := do
  let portfolioCurrency := normalizeCurrency portfolio.baseCurrency
  if portfolioCurrency = "" then
    throw (.runtimeError "Portfolio aggregation requires a portfolio reporting currency.")
  let contributions ← positions.mapM (contributionOf market portfolioCurrency)
  calculatePortfolioTimeseries portfolio aggregationDate epoch contributions

/-- The portfolio day of a date, from the table. -/
def aggregateDate (market : TimeseriesMarketData) (table : List PositionTimeseriesRecord) :
    Except Raised PortfolioTimeseriesRecord :=
  calculateDailyRecord portfolio aggregationDate epoch market
    (getAllPositionTimeseriesForDate table portfolio.portfolioId aggregationDate epoch)

end Calculation

/-! ## Sums in one currency -/

/-- The contribution of a position in the portfolio currency. -/
def ownCurrencyContribution (currency : String) (position : PositionTimeseriesRecord) :
    PortfolioPositionContribution :=
  ⟨position, 1, currency, currency, position.date, none, none⟩

variable {position : PositionTimeseriesRecord}

theorem contributionOf_ownCurrency {market : TimeseriesMarketData} {code : String}
    {instrument : TimeseriesInstrument}
    (hcode : normalizeCurrency code ≠ "") (hid : strip position.securityId ≠ "")
    (hfind : market.instruments.reverse.find?
      (fun i => sqlTrim i.securityId = strip position.securityId) = some instrument)
    (hinst : normalizeCurrency instrument.currency = normalizeCurrency code) :
    contributionOf market (normalizeCurrency code) position =
      .ok (ownCurrencyContribution (normalizeCurrency code) position) := by
  have hblank : strip (normalizeCurrency code) ≠ "" := strip_upper_strip_ne hcode
  simp only [contributionOf, hfind, hinst, hcode, if_false, resolveFxRate, if_true]
  change PortfolioPositionContribution.new position _ = _
  simp [PortfolioPositionContribution.new, hid, hblank, ownCurrencyContribution]

section Sums

variable {portfolio : PortfolioAggregationScope} {date : ℤ} {epoch : ℕ} {currency : String}

/-- What the aggregation asks of the position days of a date. -/
structure Aggregable (portfolio : PortfolioAggregationScope) (date : ℤ) (epoch : ℕ)
    (positions : List PositionTimeseriesRecord) : Prop where
  ofPortfolio : ∀ r ∈ positions, strip r.portfolioId = strip portfolio.portfolioId
  notLater : ∀ r ∈ positions, r.date ≤ date ∧ r.epoch ≤ epoch
  distinct : (positions.map fun r => strip r.securityId).Nodup
  stored : ∀ r ∈ positions, ∀ a : PortfolioAmount, Storable (a.ofPosition r)

variable {l l' : List PositionTimeseriesRecord}

theorem Aggregable.perm (h : Aggregable portfolio date epoch l) (hp : l'.Perm l) :
    Aggregable portfolio date epoch l' where
  ofPortfolio r hr := h.ofPortfolio r (hp.mem_iff.mp hr)
  notLater r hr := h.notLater r (hp.mem_iff.mp hr)
  distinct := (hp.map _).nodup_iff.mpr h.distinct
  stored r hr := h.stored r (hp.mem_iff.mp hr)

/-- The exact sum of an amount. -/
def amountSum (a : PortfolioAmount) (positions : List PositionTimeseriesRecord) : ℚ :=
  (positions.map a.ofPosition).sum

variable {totals : PortfolioTotals}

theorem addContribution_ownCurrency
    {n : ℕ} (hscope : strip position.portfolioId = strip portfolio.portfolioId)
    (hdate : position.date ≤ date ∧ position.epoch ≤ epoch)
    (hseen : strip position.securityId ∉ totals.seenSecurityIds)
    (hstored : ∀ a : PortfolioAmount, Storable (a.ofPosition position))
    (hgrid : ∀ a, OnGrid 10 (totals.total a)) (hsize : ∀ a, |totals.total a| ≤ n * 10 ^ 8)
    (hn : n < 10 ^ 46) :
    addContribution portfolio date epoch totals (ownCurrencyContribution currency position) =
      .ok ⟨strip position.securityId :: totals.seenSecurityIds,
        fun a => totals.total a + a.ofPosition position⟩ := by
  have hexact : ∀ a : PortfolioAmount,
      portfolioTimeseriesLedger.round (totals.total a +
        portfolioTimeseriesLedger.round (a.ofPosition position * 1)) =
      totals.total a + a.ofPosition position := by
    intro a
    have hamount := storable_bound (hstored a)
    have hone : portfolioTimeseriesLedger.round (a.ofPosition position * 1) =
        a.ofPosition position := by
      rw [mul_one]
      exact workingRound_of_onGrid (hstored a).onGrid (hamount.trans (by norm_num))
    rw [hone]
    apply workingRound_of_onGrid ((hgrid a).add (hstored a).onGrid)
    have hn' : (n : ℚ) + 1 ≤ 10 ^ 46 := by exact_mod_cast hn
    have hsum := abs_add_le (totals.total a) (a.ofPosition position)
    have hle := hsize a
    calc |totals.total a + a.ofPosition position|
        ≤ |totals.total a| + |a.ofPosition position| := hsum
      _ < n * 10 ^ 8 + 10 ^ 8 := by linarith
      _ = (n + 1) * 10 ^ 8 := by ring
      _ ≤ 10 ^ 46 * 10 ^ 8 := mul_le_mul_of_nonneg_right hn' (by norm_num)
      _ = 10 ^ 54 := by norm_num
  simp only [addContribution, ownCurrencyContribution, hscope, ne_eq, not_true_eq_false, if_false,
    not_lt.mpr hdate.1, not_lt.mpr hdate.2, or_self, hseen, hexact]

variable {positions : List PositionTimeseriesRecord}

theorem foldlM_addContribution (currency : String)
    (h : Aggregable portfolio date epoch positions) {n : ℕ}
    (hseen : ∀ r ∈ positions, strip r.securityId ∉ totals.seenSecurityIds)
    (hgrid : ∀ a, OnGrid 10 (totals.total a)) (hsize : ∀ a, |totals.total a| ≤ n * 10 ^ 8)
    (hn : n + positions.length ≤ 10 ^ 46) :
    ∃ seen, (positions.map (ownCurrencyContribution currency)).foldlM
        (addContribution portfolio date epoch) totals =
      .ok ⟨seen, fun a => totals.total a + amountSum a positions⟩ := by
  induction positions generalizing totals n with
  | nil =>
    refine ⟨totals.seenSecurityIds, ?_⟩
    simp only [map_nil, foldlM_nil, amountSum, sum_nil, add_zero]
    rfl
  | cons r rest ih =>
    obtain ⟨hnew, hdistinct⟩ := nodup_cons.mp h.distinct
    have hrest : Aggregable portfolio date epoch rest :=
      { ofPortfolio := fun q hq => h.ofPortfolio q (mem_cons_of_mem r hq)
        notLater := fun q hq => h.notLater q (mem_cons_of_mem r hq)
        distinct := hdistinct
        stored := fun q hq => h.stored q (mem_cons_of_mem r hq) }
    have hstored := h.stored r mem_cons_self
    have hlt : n < 10 ^ 46 := by
      rw [length_cons] at hn
      omega
    let next : PortfolioTotals := ⟨strip r.securityId :: totals.seenSecurityIds,
      fun a => totals.total a + a.ofPosition r⟩
    have hstep : addContribution portfolio date epoch totals (ownCurrencyContribution currency r) =
        .ok next :=
      addContribution_ownCurrency (h.ofPortfolio r mem_cons_self)
        (h.notLater r mem_cons_self) (hseen r mem_cons_self) hstored hgrid hsize hlt
    have hseen' : ∀ q ∈ rest, strip q.securityId ∉ next.seenSecurityIds := by
      intro q hq hmem
      rcases mem_cons.mp hmem with he | hold
      · exact hnew (mem_map.mpr ⟨q, hq, he⟩)
      · exact hseen q (mem_cons_of_mem r hq) hold
    have hsize' : ∀ a, |next.total a| ≤ (n + 1 : ℕ) * 10 ^ 8 := by
      intro a
      have hadd := abs_add_le (totals.total a) (a.ofPosition r)
      have hamount := storable_bound (hstored a)
      have hold := hsize a
      push_cast
      linarith
    have hn' : n + 1 + rest.length ≤ 10 ^ 46 := by
      rw [length_cons] at hn
      omega
    obtain ⟨seen, hloop⟩ := ih hrest hseen' (fun a => (hgrid a).add (hstored a).onGrid) hsize' hn'
    refine ⟨seen, ?_⟩
    rw [map_cons, foldlM_cons, hstep]
    change (rest.map _).foldlM _ next = _
    rw [hloop]
    simp only [next, amountSum, map_cons, sum_cons, add_assoc]

theorem amountSum_perm (hp : l.Perm l')
    (a : PortfolioAmount) : amountSum a l = amountSum a l' := (hp.map _).sum_eq

/-- The record with given amounts. -/
def portfolioDay (portfolio : PortfolioAggregationScope) (date : ℤ) (epoch : ℕ)
    (total : PortfolioAmount → ℚ) : PortfolioTimeseriesRecord :=
  ⟨portfolio.portfolioId, date, epoch, total .bodMarketValue, total .bodCashflow,
    total .eodCashflow, total .eodMarketValue, total .fees⟩

@[simp] theorem ofPortfolio_portfolioDay (total : PortfolioAmount → ℚ) (a : PortfolioAmount) :
    a.ofPortfolio (portfolioDay portfolio date epoch total) = total a := by
  cases a <;> rfl

variable {record : PortfolioTimeseriesRecord}

theorem PortfolioTotals.record_eq_ok (hgrid : ∀ a, OnGrid 10 (totals.total a)) :
    totals.record portfolio date epoch = .ok record ↔
      (∀ a, Storable (totals.total a)) ∧
        record = portfolioDay portfolio date epoch totals.total := by
  simp only [PortfolioTotals.record, Exec.except_bind_eq_ok, normalize_eq_ok,
    quantize_of_onGrid (hgrid _)]
  constructor
  · rintro ⟨_, ⟨rfl, h1⟩, _, ⟨rfl, h2⟩, _, ⟨rfl, h3⟩, _, ⟨rfl, h4⟩, _, ⟨rfl, h5⟩, hrecord⟩
    refine ⟨fun a => ?_, (Except.ok.inj hrecord).symm⟩
    cases a <;> assumption
  · rintro ⟨hfit, rfl⟩
    exact ⟨_, ⟨rfl, hfit _⟩, _, ⟨rfl, hfit _⟩, _, ⟨rfl, hfit _⟩, _, ⟨rfl, hfit _⟩, _,
      ⟨rfl, hfit _⟩, rfl⟩

theorem insertionSort_ownCurrency (positions : List PositionTimeseriesRecord) :
    (positions.map (ownCurrencyContribution currency)).insertionSort
        (fun a b => strip a.positionTimeseries.securityId ≤ strip b.positionTimeseries.securityId) =
      (positions.insertionSort fun a b => strip a.securityId ≤ strip b.securityId).map
        (ownCurrencyContribution currency) := by
  symm
  apply map_insertionSort
  exact fun _ _ _ _ => Iff.rfl

theorem onGrid_amountSum
    (h : ∀ r ∈ positions, ∀ a : PortfolioAmount, Storable (a.ofPosition r)) (a : PortfolioAmount) :
    OnGrid 10 (amountSum a positions) := by
  refine OnGrid.list_sum fun x hx => ?_
  obtain ⟨r, hr, rfl⟩ := mem_map.mp hx
  exact (h r hr a).onGrid

/-- **A portfolio day in one currency holds the sums of its position days**, provided they fit. -/
theorem calculatePortfolioTimeseries_eq_ok
    (hid : strip portfolio.portfolioId ≠ "") (h : Aggregable portfolio date epoch positions)
    (hn : positions.length ≤ 10 ^ 46) :
    calculatePortfolioTimeseries portfolio date epoch
        (positions.map (ownCurrencyContribution currency)) = .ok record ↔
      (∀ a, Storable (amountSum a positions)) ∧
        record = portfolioDay portfolio date epoch fun a => amountSum a positions := by
  let ordered := positions.insertionSort fun a b => strip a.securityId ≤ strip b.securityId
  have hperm : ordered.Perm positions := perm_insertionSort _ positions
  have hlen : 0 + ordered.length ≤ 10 ^ 46 := by
    rw [hperm.length_eq]
    omega
  let start : PortfolioTotals := {}
  have hseen : ∀ r ∈ ordered, strip r.securityId ∉ start.seenSecurityIds :=
    fun _ _ => not_mem_nil
  have hzero : ∀ a, |start.total a| ≤ (0 : ℕ) * 10 ^ 8 := fun a => by simp [start]
  obtain ⟨seen, hloop⟩ :=
    foldlM_addContribution currency (h.perm hperm) hseen (fun _ => OnGrid.zero 10) hzero hlen
  have htotal : (fun a => start.total a + amountSum a ordered) =
      fun a => amountSum a positions := by
    funext a
    rw [amountSum_perm hperm]
    exact zero_add _
  rw [htotal] at hloop
  let totals : PortfolioTotals := ⟨seen, fun a => amountSum a positions⟩
  have hgrid : ∀ a, OnGrid 10 (totals.total a) := onGrid_amountSum h.stored
  refine Iff.trans ?_ (PortfolioTotals.record_eq_ok hgrid)
  simp only [calculatePortfolioTimeseries, hid, if_false, insertionSort_ownCurrency]
  change ((ordered.map (ownCurrencyContribution currency)).foldlM _ start >>= _) = _ ↔ _
  rw [hloop]
  exact Iff.rfl

end Sums

end LotusCore.DerivedState
