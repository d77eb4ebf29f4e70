import LotusCore.Position.Reducer

/-!
# Position days

The records of a position time series: the cashflows of a position, classified and timed, and the
rows calculated for its days.
-/

namespace LotusCore.DerivedState

open Decimal

/-! ## Records -/

/-- Whether a cashflow counts before or after the day. -/
inductive CashflowTiming
  | bod | eod
  deriving DecidableEq, Repr

structure PositionCashflowRecord where
  transactionId : String
  cashflowDate : ℤ
  epoch : ℕ
  amount : ℚ
  classification : CashflowClassification
  timing : CashflowTiming
  isPositionFlow : Bool
  isPortfolioFlow : Bool
  calculationLineage : Option CalculationLineage := none
  deriving DecidableEq

structure PositionTimeseriesRecord where
  portfolioId : String
  securityId : String
  date : ℤ
  epoch : ℕ
  bodMarketValue : ℚ
  bodCashflowPosition : ℚ
  eodCashflowPosition : ℚ
  bodCashflowPortfolio : ℚ
  eodCashflowPortfolio : ℚ
  eodMarketValue : ℚ
  fees : ℚ
  quantity : ℚ
  cost : ℚ
  calculationLineage : Option CalculationLineage := none
  materializedAt : Option ℤ := none
  deriving DecidableEq

end LotusCore.DerivedState
