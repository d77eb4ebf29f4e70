import LotusCore.Data.Collation
import LotusCore.Data.Grouping
import LotusCore.Data.Ordered
import LotusCore.Numeric.Policy
import LotusCore.Transaction.Types

/-!
# The liquidity ladder of a portfolio

The ladder starts from the cash balance of the last position snapshots as of a day and adds the
cashflows of that day and the days after it, bucket by bucket: the booked ones, and those of
deposits and withdrawals that have not been booked yet but settle within the horizon.

* `listLatestSnapshotRows`, `bookedSeries`, `projectedSeries`: the queries.
* `readCashflowEvidenceWindow`: the two series, converted and added up by day.
* `getLiquidityLadder`: the buckets.

Security ids are those the queries compare: the stored ids without outer blanks.
-/

namespace LotusCore.Liquidity

open Decimal

/-! ## Tables -/

/-- A row of `position_history`. -/
structure PositionHistory where
  id : ℕ
  securityId : String
  positionDate : ℤ
  epoch : ℕ
  quantity : ℚ
  deriving DecidableEq

/-- A row of `daily_position_snapshots`. -/
structure PositionSnapshot where
  id : ℕ
  securityId : String
  date : ℤ
  epoch : ℕ
  quantity : ℚ
  marketValue : Option ℚ
  valuationStatus : String
  deriving DecidableEq

/-- A row of `instruments`. -/
structure Instrument where
  securityId : String
  assetClass : Option String
  deriving DecidableEq

/-- A row of `cashflows`. -/
structure Cashflow where
  id : ℕ
  transactionId : String
  cashflowDate : ℤ
  epoch : ℕ
  amount : ℚ
  currency : String
  isPortfolioFlow : Bool
  deriving DecidableEq

/-- A row of `transactions`, with its instants in microseconds. -/
structure Transaction where
  transactionId : String
  transactionType : String
  transactionDate : ℤ
  settlementDate : Option ℤ
  grossTransactionAmount : ℚ
  tradeCurrency : String
  deriving DecidableEq

/-- A row of `fx_rates`, its currencies in the spelling the query compares. -/
structure FxRate where
  fromCurrency : String
  toCurrency : String
  rateDate : ℤ
  rate : ℚ
  deriving DecidableEq

/-- What the queries find about one portfolio. -/
structure LadderSource where
  baseCurrency : String
  latestBusinessDate : Option ℤ
  history : List PositionHistory
  /-- The current epoch of a security, from `position_state`. -/
  states : List (String × ℕ)
  snapshots : List PositionSnapshot
  instruments : List Instrument
  cashflows : List Cashflow
  transactions : List Transaction
  fxRates : List FxRate
  marketValue_storable : ∀ s ∈ snapshots, ∀ v ∈ s.marketValue, Storable v
  amount_storable : ∀ c ∈ cashflows, Storable c.amount

/-! ## Snapshots -/

variable (source : LadderSource)

/-- The latest history of each security in its current epoch, unless it is closed. -/
def latestOpenHistory (asOfDate : ℤ) : List PositionHistory :=
  ((Grouping.groups PositionHistory.securityId (source.history.filter fun h =>
      (h.securityId, h.epoch) ∈ source.states ∧ h.positionDate ≤ asOfDate)).filterMap
    (Ordered.latest fun h => toLex (h.positionDate, h.id))).filter fun h => h.quantity ≠ 0

def latestSnapshots (asOfDate : ℤ) : List PositionSnapshot :=
  (Grouping.groups PositionSnapshot.securityId (source.snapshots.filter fun s =>
      (∃ h ∈ latestOpenHistory source asOfDate,
        s.securityId = h.securityId ∧ s.epoch = h.epoch ∧ s.quantity = h.quantity) ∧
      s.date ≤ asOfDate ∧ s.quantity ≠ 0)).filterMap
    (Ordered.latest fun s => toLex (s.date, s.id))

/-- A snapshot with the instrument it is joined to. -/
structure ReportingSnapshotRow where
  snapshot : PositionSnapshot
  instrument : Option Instrument
  deriving DecidableEq

variable (collation : Collation)

def listLatestSnapshotRows (source : LadderSource) (asOfDate : ℤ) : List ReportingSnapshotRow :=
  ((latestSnapshots source asOfDate).flatMap fun s =>
    match source.instruments.filter fun i => i.securityId = s.securityId with
    | [] => [⟨s, none⟩]
    | instruments => instruments.map fun i => ⟨s, some i⟩).insertionSort
      fun a b => collation.le a.snapshot.securityId b.snapshot.securityId

/-- `has_usable_valuation_status`. -/
def hasUsableSnapshotValuation (row : ReportingSnapshotRow) : Bool :=
  normalizeTransactionControlCode (some row.snapshot.valuationStatus) ∈
    ["VALUED", "VALUED_CURRENT", "VALUED_STALE"]

def ReportingSnapshotRow.assetClass (row : ReportingSnapshotRow) : String :=
  normalizeTransactionControlCode (row.instrument.bind Instrument.assetClass)

variable (rows : List ReportingSnapshotRow)

/-- The first list of `_partition_snapshot_rows`. -/
def cashRows : List ReportingSnapshotRow :=
  rows.filter fun row => row.assetClass = "CASH"

/-- The last list of `_partition_snapshot_rows`. -/
def unclassifiedRows : List ReportingSnapshotRow :=
  rows.filter fun row => row.assetClass = ""

/-! ## Arithmetic -/

def cashflowArithmeticContext : Context := contextOf 50 (by norm_num)

/-- `sum(…, ZERO)` in that context. -/
def cashflowSum (amounts : List ℚ) : ℚ :=
  amounts.foldl (fun sum amount => cashflowArithmeticContext.round (sum + amount)) 0

def openingCashBalance : Option ℚ :=
  if rows = [] ∨ unclassifiedRows rows ≠ [] ∨
      ∃ row ∈ cashRows rows,
        row.snapshot.marketValue = none ∨ hasUsableSnapshotValuation row = false then
    none
  else some (cashflowSum ((cashRows rows).map fun row => row.snapshot.marketValue.getD 0))

/-! ## Cashflow series -/

/-- Why a ladder is refused. -/
inductive LadderError
  | horizonDays
  | noBusinessDate
  | currencyCode
  | fxEvidence (fromCurrency toCurrency : String) (flowDate : ℤ)
  | fxRate
  deriving DecidableEq

def normalizeCurrencyCode (currency : String) : Except LadderError String :=
  match LotusCore.normalizeCurrencyCode currency with
  | .ok code => .ok code
  | .error _ => .error .currencyCode

/-- `_latest_cashflows_subquery`. -/
def latestCashflows : List Cashflow :=
  (Grouping.groups Cashflow.transactionId source.cashflows).filterMap
    (Ordered.latest fun c => toLex (c.epoch, c.id))

/-- `GROUP BY day, currency ORDER BY day, currency` with the sum of the amounts. -/
def dailySums (flows : List (ℤ × String × ℚ)) : List (ℤ × String × ℚ) :=
  ((Grouping.keys (fun f => (f.1, f.2.1)) flows).map fun key =>
    (key.1, key.2, ((Grouping.rowsOf (fun f => (f.1, f.2.1)) flows key).map fun f => f.2.2).sum)
    ).insertionSort (collation.orderBy Prod.fst fun row => [row.2.1])

/-- The rows of `get_portfolio_cashflow_series_with_evidence`. -/
def bookedSeries (source : LadderSource) (startDate endDate : ℤ) : List (ℤ × String × ℚ) :=
  dailySums collation (((latestCashflows source).filter fun c =>
      startDate ≤ c.cashflowDate ∧ c.cashflowDate ≤ endDate ∧ c.isPortfolioFlow).map
    fun c => (c.cashflowDate, c.currency, c.amount))

/-- What a deposit brings and a withdrawal takes. -/
def Transaction.signedAmount (t : Transaction) : ℚ :=
  if t.transactionType = "DEPOSIT" then |t.grossTransactionAmount| else -|t.grossTransactionAmount|

/-- The rows of `get_projected_settlement_cashflow_series_with_evidence`. -/
def projectedSeries (source : LadderSource) (startDate endDate : ℤ) : List (ℤ × String × ℚ) :=
  dailySums collation (source.transactions.filterMap fun t =>
    match t.settlementDate with
    | none => none
    | some settlement =>
      if (t.transactionType = "DEPOSIT" ∨ t.transactionType = "WITHDRAWAL") ∧
          startOfDay startDate ≤ settlement ∧ settlement < startOfNextDay endDate ∧
          t.transactionDate < startOfDay startDate ∧
          ¬ ∃ c ∈ source.cashflows, c.transactionId = t.transactionId then
        some (utcDate settlement, t.tradeCurrency, t.signedAmount)
      else none)

/-- `_cashflow_series_evidence`: the rows with their currencies normalized. -/
def cashflowSeriesEvidence (rows : List (ℤ × String × ℚ)) :
    Except LadderError (List (ℤ × String × ℚ)) :=
  rows.mapM fun row => do
    let currency ← normalizeCurrencyCode row.2.1
    pure (row.1, currency, row.2.2)

/-- The exact-date direct rate of `get_cashflow_fx_rate_evidence`; of several rows the last
counts. -/
def fxRateEvidence (fromCurrency toCurrency : String) (flowDate : ℤ) : Option ℚ :=
  ((source.fxRates.filter fun r =>
    r.fromCurrency = fromCurrency ∧ r.toCurrency = toCurrency ∧ r.rateDate = flowDate).getLast?).map
      FxRate.rate

/-- The conversion of one row by `_convert_and_aggregate`. -/
def convertedRow (portfolioCurrency : String) (row : ℤ × String × ℚ) : Except LadderError (ℤ × ℚ) :=
  if row.2.1 = portfolioCurrency then .ok (row.1, row.2.2)
  else
    match fxRateEvidence source row.2.1 portfolioCurrency row.1 with
    | none => .error (.fxEvidence row.2.1 portfolioCurrency row.1)
    | some rate =>
      if rate ≤ 0 then .error .fxRate
      else .ok (row.1, cashflowArithmeticContext.round (row.2.2 * rate))

/-- The totals of the converted rows by day, in the order of the days. -/
def aggregated (rows : List (ℤ × ℚ)) : List (ℤ × ℚ) :=
  ((Grouping.keys Prod.fst rows).map fun day =>
    (day, cashflowSum ((Grouping.rowsOf Prod.fst rows day).map Prod.snd))).insertionSort
      fun a b => a.1 ≤ b.1

def convertAndAggregate (portfolioCurrency : String) (rows : List (ℤ × String × ℚ))
    : Except LadderError (List (ℤ × ℚ)) := do
  let converted ← rows.mapM (convertedRow source portfolioCurrency)
  pure (aggregated converted)

/-- `read_cashflow_evidence_window`: the booked and the projected series. -/
def readCashflowEvidenceWindow (source : LadderSource) (startDate endDate : ℤ)
    (includeProjected : Bool) :
    Except LadderError (List (ℤ × ℚ) × List (ℤ × ℚ)) := do
  let nativeBooked ← cashflowSeriesEvidence (bookedSeries collation source startDate endDate)
  let nativeProjected ← cashflowSeriesEvidence
    (if includeProjected then projectedSeries collation source startDate endDate else [])
  let portfolioCurrency ← normalizeCurrencyCode source.baseCurrency
  let booked ← convertAndAggregate source portfolioCurrency nativeBooked
  let projected ← convertAndAggregate source portfolioCurrency nativeProjected
  pure (booked, projected)

/-! ## Buckets -/

structure LadderDateBucket where
  bucketCode : String
  startDate : ℤ
  endDate : ℤ
  deriving DecidableEq

/-- One candidate of `_date_buckets`, cut off at the horizon. -/
def dateBucket (asOfDate horizonDays : ℤ) (bucketCode : String) (startOffset endOffset : ℤ) :
    Option LadderDateBucket :=
  if horizonDays < startOffset then none
  else
    let startDate := asOfDate + startOffset
    let endDate := min (asOfDate + endOffset) (asOfDate + horizonDays)
    if startDate ≤ endDate then some ⟨bucketCode, startDate, endDate⟩ else none

def dateBuckets (asOfDate horizonDays : ℤ) : List LadderDateBucket :=
  [("T0", 0, 0), ("T_PLUS_1", 1, 1), ("T_PLUS_2_TO_7", 2, 7), ("T_PLUS_8_TO_30", 8, 30),
    ("T_PLUS_31_TO_HORIZON", 31, horizonDays)].filterMap fun (code, first, last) =>
      dateBucket asOfDate horizonDays code first last

def sumSeries (series : List (ℤ × ℚ)) (bucket : LadderDateBucket) : ℚ :=
  cashflowSum ((series.filter fun f => bucket.startDate ≤ f.1 ∧ f.1 ≤ bucket.endDate).map Prod.snd)

structure LiquidityLadderBucket where
  bucketCode : String
  startDate : ℤ
  endDate : ℤ
  openingCashBalance : Option ℚ
  bookedNetCashflow : ℚ
  projectedSettlementCashflow : ℚ
  netCashflow : ℚ
  cumulativeCashAvailable : Option ℚ
  cashShortfall : Option ℚ
  deriving DecidableEq

/-- The loop of `_build_ladder_buckets`, with the cash it has come to. -/
def buildLadderBuckets (opening : Option ℚ) (booked projected : List (ℤ × ℚ)) :
    Option ℚ → List LadderDateBucket → List LiquidityLadderBucket
  | _, [] => []
  | cumulative, bucket :: rest =>
    let bookedCashflow := sumSeries booked bucket
    let projectedCashflow := sumSeries projected bucket
    let netCashflow := cashflowArithmeticContext.round (bookedCashflow + projectedCashflow)
    let cumulativeCash := cumulative.map fun cash =>
      cashflowArithmeticContext.round (cash + netCashflow)
    { bucketCode := bucket.bucketCode
      startDate := bucket.startDate
      endDate := bucket.endDate
      openingCashBalance := opening
      bookedNetCashflow := bookedCashflow
      projectedSettlementCashflow := projectedCashflow
      netCashflow := netCashflow
      cumulativeCashAvailable := cumulativeCash
      cashShortfall := cumulativeCash.map fun cash =>
        cashflowArithmeticContext.round |min cash 0| } ::
      buildLadderBuckets opening booked projected cumulativeCash rest

/-- The largest horizon a ladder may ask for. -/
def maxHorizonDays : ℤ := 366

/-- `get_liquidity_ladder` for a portfolio the tenant owns: its buckets. -/
def getLiquidityLadder (source : LadderSource) (asOfDate : Option ℤ) (horizonDays : ℤ)
    (includeProjected : Bool) :
    Except LadderError (List LiquidityLadderBucket) := do
  if horizonDays < 0 ∨ maxHorizonDays < horizonDays then throw .horizonDays
  let some resolvedAsOfDate := asOfDate <|> source.latestBusinessDate | throw .noBusinessDate
  let rows := listLatestSnapshotRows collation source resolvedAsOfDate
  let (booked, projected) ← readCashflowEvidenceWindow collation source resolvedAsOfDate
    (resolvedAsOfDate + horizonDays) includeProjected
  let opening := openingCashBalance rows
  pure (buildLadderBuckets opening booked projected opening
    (dateBuckets resolvedAsOfDate horizonDays))

end LotusCore.Liquidity
