import LotusCore.CostBasis.Transaction

/-!
# Cash consideration of corporate actions

The realized result of cash received for an allocated part of the cost basis. The components a
source supplies must reconcile with the proceeds and the basis.
-/

namespace LotusCore

/-- The basis disposed for cash and the realized result in both currencies. -/
structure CorporateActionCashEconomics where
  netProceedsLocal : ℚ
  netProceedsBase : ℚ
  allocatedCostBasisLocal : ℚ
  allocatedCostBasisBase : ℚ
  realizedCapitalPnlLocal : ℚ
  realizedFxPnlLocal : ℚ
  realizedTotalPnlLocal : ℚ
  realizedCapitalPnlBase : ℚ
  realizedFxPnlBase : ℚ
  realizedTotalPnlBase : ℚ

/-- `_currency`. -/
def requiredCurrency (value : String) : Except Raised String :=
  let normalized := normalizeTransactionControlCode (some value)
  if normalized = "" then .error (.valueError "currency must not be empty") else .ok normalized

def validateNonNegative (value : ℚ) (fieldName : String) : Except Raised Unit :=
  if value < 0 then .error (.valueError (fieldName ++ " must be greater than or equal to 0"))
  else .ok ()

def requiredNonNegativeBasis (value : Option ℚ) (fieldName : String) : Except Raised ℚ :=
  match value with
  | none => .error (.valueError (fieldName ++ " is required"))
  | some basis => do
    validateNonNegative basis fieldName
    .ok basis

/-- `_same_currency_components`: the whole result is capital. -/
def sameCurrencyComponents (expectedTotal : ℚ) (providedCapital providedFx : Option ℚ)
    (currencyBasis : String) : Except Raised (ℚ × ℚ) :=
  let capital := providedCapital.getD expectedTotal
  let fx := providedFx.getD 0
  if capital ≠ expectedTotal ∨ fx ≠ 0 then
    .error (.valueError ("same-currency realized P&L " ++ currencyBasis ++
      " components must assign total P&L to capital and zero to FX"))
  else .ok (capital, fx)

def requiredCrossCurrencyComponents (expectedTotal : ℚ) (providedCapital providedFx : Option ℚ)
    (currencyBasis : String) : Except Raised (ℚ × ℚ) :=
  match providedCapital, providedFx with
  | some capital, some fx => do
    let total ← transactionCostLedger.add capital fx ("realized_total_pnl_" ++ currencyBasis)
    if total ≠ expectedTotal then
      .error (.valueError ("cross-currency realized capital and FX P&L " ++ currencyBasis ++
        " components must reconcile to proceeds less allocated basis"))
    else .ok (capital, fx)
  | _, _ =>
    .error (.valueError ("cross-currency realized capital and FX P&L " ++ currencyBasis ++
      " components are required"))

def validateOptionalTotal (provided : Option ℚ) (expected : ℚ) (fieldName : String) :
    Except Raised Unit :=
  match provided with
  | none => .ok ()
  | some total =>
    if total ≠ expected then
      .error (.valueError (fieldName ++ " must reconcile to proceeds less allocated basis"))
    else .ok ()

/-- The realized components in both currencies: local capital and FX, base capital and FX. -/
def cashComponents (t : CostBasisTransaction) (basisLocal basisBase totalLocal totalBase : ℚ) :
    Except Raised ((ℚ × ℚ) × ℚ × ℚ) := do
  let localCurrency ← requiredCurrency t.tradeCurrency
  let baseCurrency ← requiredCurrency t.portfolioBaseCurrency
  if localCurrency = baseCurrency then
    let expectedBasisBase ← transactionCostLedger.multiply basisLocal t.fxRateOrOne
      "allocated_cost_basis_base"
    if basisBase ≠ expectedBasisBase then
      .error (.valueError ("allocated_cost_basis_base must equal allocated_cost_basis_local " ++
        "converted at transaction_fx_rate for same-currency consideration"))
    else do
      let components ← sameCurrencyComponents totalLocal t.realizedCapitalPnlLocal
        t.realizedFxPnlLocal "local"
      let componentsBase ← sameCurrencyComponents totalBase t.realizedCapitalPnlBase
        t.realizedFxPnlBase "base"
      .ok (components, componentsBase)
  else do
    let components ← requiredCrossCurrencyComponents totalLocal t.realizedCapitalPnlLocal
      t.realizedFxPnlLocal "local"
    let componentsBase ← requiredCrossCurrencyComponents totalBase t.realizedCapitalPnlBase
      t.realizedFxPnlBase "base"
    .ok (components, componentsBase)

/-- `_calculate_transaction_cash_economics`: `calculate_corporate_action_cash_economics` on the
fields of a transaction. -/
def calculateTransactionCashEconomics (t : CostBasisTransaction) :
    Except Raised CorporateActionCashEconomics := do
  validateNonNegative t.grossTransactionAmount "gross_proceeds_local"
  validateNonNegative t.fees.totalFees "fees_local"
  if t.fxRateOrOne ≤ 0 then
    .error (.valueError "transaction_fx_rate must be greater than 0")
  else do
    let basisLocal ← requiredNonNegativeBasis t.allocatedCostBasisLocal
      "allocated_cost_basis_local"
    let basisBase ← requiredNonNegativeBasis t.allocatedCostBasisBase "allocated_cost_basis_base"
    let netLocal ← transactionCostLedger.subtract t.grossTransactionAmount t.fees.totalFees
      "net_proceeds_local"
    if netLocal < 0 then
      .error (.valueError "fees_local must not exceed gross_proceeds_local")
    else do
      let netBase ← transactionCostLedger.multiply netLocal t.fxRateOrOne "net_proceeds_base"
      let totalLocal ← transactionCostLedger.subtract netLocal basisLocal
        "realized_total_pnl_local"
      let totalBase ← transactionCostLedger.subtract netBase basisBase "realized_total_pnl_base"
      let ((capitalLocal, fxLocal), (capitalBase, fxBase)) ← cashComponents t basisLocal basisBase
        totalLocal totalBase
      validateOptionalTotal t.realizedTotalPnlLocal totalLocal "realized_total_pnl_local"
      validateOptionalTotal t.realizedTotalPnlBase totalBase "realized_total_pnl_base"
      .ok ⟨netLocal, netBase, basisLocal, basisBase, capitalLocal, fxLocal, totalLocal,
        capitalBase, fxBase, totalBase⟩

end LotusCore
