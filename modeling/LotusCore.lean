import LotusCore.Authority.Assignments
import LotusCore.Benchmark.Completeness
import LotusCore.Benchmark.WindowIndependence
import LotusCore.CoreSnapshot.Projection
import LotusCore.CorporateAction.GraphCycles
import LotusCore.CorporateAction.LegLinkage
import LotusCore.CorporateAction.ManifestReadiness
import LotusCore.CorporateAction.ReleaseRun
import LotusCore.CostBasis.BoundedLoading
import LotusCore.CostBasis.FxEnrichment
import LotusCore.CostBasis.Persistence
import LotusCore.CostBasis.RealizedTotals
import LotusCore.DerivedState.AggregationRun
import LotusCore.DerivedState.CashflowReads
import LotusCore.DerivedState.PortfolioFlows
import LotusCore.FixedIncome.DisposalRuns
import LotusCore.FixedIncome.StraightLine
import LotusCore.Idempotency.Enrichment
import LotusCore.Idempotency.SemanticFences
import LotusCore.Liquidity.CashCount
import LotusCore.Outbox.Dispatch
import LotusCore.Position.History
import LotusCore.Reconciliation.TimeseriesAgreement
import LotusCore.Reference.ClassificationHistory
import LotusCore.Reprocessing.FxReplay
import LotusCore.Reprocessing.Obligations
import LotusCore.Settlement.Views
import LotusCore.Valuation.AccruedIncome
import LotusCore.Valuation.Contiguity
import LotusCore.Valuation.YearFraction
