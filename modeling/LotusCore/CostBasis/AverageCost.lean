import LotusCore.CostBasis.Lots

/-!
# Average cost

The pool of one portfolio and instrument under AVCO, with the four operations of
`AverageCostBasisStrategy`. The sources of a pool are scaled lazily: a source remembers the scales
at its entry, and its open state is worked out from the current scales when it is asked for. A
raising operation keeps what it wrote before.

* `AverageCostPool`: what is open in total, and where the current disposal segment began.
* `AvcoBook`: the pool, its sources and their scales.
* `AvcoBook.materializeBook`: the open state of every active source.
* `avcoAddBuyLot`, `avcoConsume`, `avcoRestate`, `avcoTransferBasisOut`: the operations.
-/

namespace LotusCore

open Exec Decimal

/-- A division in the 64 digit context of the ledgers. -/
def workingDivide (x y : ℚ) : Except Raised ℚ :=
  if y = 0 then .error .decimalDivision else .ok (workingRound (x / y))

/-! ## The pool -/

/-- The aggregate of a book and the start of its disposal segment. -/
structure AverageCostPool where
  quantity : ℚ := 0
  costLocal : ℚ := 0
  costBase : ℚ := 0
  segmentStartQuantity : ℚ := 0
  segmentStartCostLocal : ℚ := 0
  segmentStartCostBase : ℚ := 0
  deriving DecidableEq

namespace AverageCostPool

/-- `AverageCostPool.add`: an addition starts a new segment. -/
def add (quantity costLocal costBase : ℚ) : EStateM Raised AverageCostPool Unit := do
  let q ← costBasisStateLedger.add (← get).quantity quantity "pool_quantity"
  modify fun p => { p with quantity := q }
  let l ← costBasisStateLedger.add (← get).costLocal costLocal "pool_cost_local"
  modify fun p => { p with costLocal := l }
  let b ← costBasisStateLedger.add (← get).costBase costBase "pool_cost_base"
  modify fun p => { p with
    costBase := b
    segmentStartQuantity := p.quantity
    segmentStartCostLocal := p.costLocal
    segmentStartCostBase := b }

def remainingCost (segmentStartCost quantityAfter segmentStartQuantity : ℚ) : Except Raised ℚ :=
  workingDivide (workingRound (segmentStartCost * quantityAfter)) segmentStartQuantity

def setRemainingCosts (quantityAfter : ℚ) : EStateM Raised AverageCostPool Unit := do
  let p ← get
  if quantityAfter = 0 then
    modify fun p => { p with costLocal := 0, costBase := 0 }
  else
    let remainingLocal ← remainingCost p.segmentStartCostLocal quantityAfter p.segmentStartQuantity
    let remainingBase ← remainingCost p.segmentStartCostBase quantityAfter p.segmentStartQuantity
    let l ← costBasisStateLedger.normalize remainingLocal "pool_cost_local"
    modify fun p => { p with costLocal := l }
    let b ← costBasisStateLedger.normalize remainingBase "pool_cost_base"
    modify fun p => { p with costBase := b }

/-- `AverageCostPool.dispose`: the base and the local cost of the disposed quantity. -/
def dispose (quantity : ℚ) : EStateM Raised AverageCostPool (ℚ × ℚ) := do
  let before ← get
  let quantityAfter ← costBasisStateLedger.subtract before.quantity quantity "pool_quantity"
  setRemainingCosts quantityAfter
  modify fun p => { p with quantity := quantityAfter }
  let after ← get
  let costBase ← costBasisStateLedger.subtract before.costBase after.costBase "disposed_cost_base"
  let costLocal ← costBasisStateLedger.subtract before.costLocal after.costLocal
    "disposed_cost_local"
  pure (costBase, costLocal)

/-- `AverageCostPool.transfer_basis_out`: the quantity stays, a new segment starts. -/
def transferBasisOut (costLocal costBase : ℚ) : EStateM Raised AverageCostPool Unit := do
  let l ← costBasisStateLedger.subtract (← get).costLocal costLocal "pool_cost_local"
  modify fun p => { p with costLocal := l }
  let b ← costBasisStateLedger.subtract (← get).costBase costBase "pool_cost_base"
  modify fun p => { p with
    costBase := b
    segmentStartQuantity := p.quantity
    segmentStartCostLocal := p.costLocal
    segmentStartCostBase := b }

end AverageCostPool

/-! ## Sources -/

/-- What one acquisition contributed to a pool, and the scales at its entry. -/
structure AverageCostSourceContribution where
  sourceTransactionId : String
  sourceLotId : String
  sourceAcquisitionDate : ℤ
  generation : ℕ
  originalQuantity : ℚ
  quantity : ℚ
  costLocal : ℚ
  costBase : ℚ
  disposalScaleAtEntry : ℚ
  costLocalScaleAtEntry : ℚ
  costBaseScaleAtEntry : ℚ
  costLocalGeneration : ℕ
  costBaseGeneration : ℕ
  deriving DecidableEq

/-- The AVCO state of one book. The sources that a full disposal retired stay in
`closedSources`. -/
structure AvcoBook where
  pool : AverageCostPool := {}
  closedSources : List AverageCostSourceContribution := []
  activeSources : List AverageCostSourceContribution := []
  generation : ℕ := 0
  disposalScale : ℚ := 1
  segmentStartScale : ℚ := 1
  segmentStartQuantity : ℚ := 0
  costLocalScale : ℚ := 1
  costBaseScale : ℚ := 1
  costLocalGeneration : ℕ := 0
  costBaseGeneration : ℕ := 0
  deriving DecidableEq

/-- A computation on the pool, as one on the book. -/
def onPool {α : Type} (m : EStateM Raised AverageCostPool α) : EStateM Raised AvcoBook α :=
  zoom AvcoBook.pool (fun b p => { b with pool := p }) m

/-- The source a purchase opens under the current scales and generations. -/
def AvcoBook.newSource (b : AvcoBook) (t : CostBasisTransaction) (quantity originalQuantity
    costLocal costBase : ℚ) : AverageCostSourceContribution where
  sourceTransactionId := t.transactionId
  sourceLotId := "LOT-" ++ t.transactionId
  sourceAcquisitionDate := utcTransactionDate t
  generation := b.generation
  originalQuantity := originalQuantity
  quantity := quantity
  costLocal := costLocal
  costBase := costBase
  disposalScaleAtEntry := b.disposalScale
  costLocalScaleAtEntry := b.costLocalScale
  costBaseScaleAtEntry := b.costBaseScale
  costLocalGeneration := b.costLocalGeneration
  costBaseGeneration := b.costBaseGeneration

/-- `add_source`; `known` are the identities of the sources of every book. -/
def addSource (known : List String) (t : CostBasisTransaction) (quantity originalQuantity
    costLocal costBase poolQuantityAfter : ℚ) : EStateM Raised AvcoBook Unit := do
  if t.transactionId ∈ known then
    throw (.valueError "AVCO source transaction identity must be unique")
  modify fun b => { b with
    activeSources := b.activeSources ++
      [b.newSource t quantity originalQuantity costLocal costBase]
    segmentStartScale := b.disposalScale
    segmentStartQuantity := poolQuantityAfter }

/-- The state after a disposal that emptied the pool: a new generation of sources begins. -/
def AvcoBook.reopened (b : AvcoBook) : AvcoBook :=
  { b with
    closedSources := b.closedSources ++ b.activeSources
    activeSources := []
    generation := b.generation + 1
    disposalScale := 1
    segmentStartScale := 1
    segmentStartQuantity := 0
    costLocalScale := 1
    costBaseScale := 1
    costLocalGeneration := b.costLocalGeneration + 1
    costBaseGeneration := b.costBaseGeneration + 1 }

def applyDisposal (quantityBefore quantityAfter : ℚ) : EStateM Raised AvcoBook Unit := do
  let b ← get
  if quantityBefore ≤ 0 then
    throw (.valueError "AVCO source allocation requires positive quantity_before")
  else if quantityAfter < 0 ∨ quantityBefore < quantityAfter then
    throw (.valueError "AVCO source allocation quantity_after is outside the pool")
  else if quantityAfter = 0 then modify AvcoBook.reopened
  else if b.segmentStartQuantity ≤ 0 then
    throw (.valueError "AVCO source allocation disposal segment is not initialized")
  else modify fun b => { b with
    disposalScale :=
      workingRound (workingRound (b.segmentStartScale * quantityAfter) / b.segmentStartQuantity) }

def restatedSource (r : LotRestatement) (c : AverageCostSourceContribution) :
    Except Raised AverageCostSourceContribution := do
  let originalQuantity ← r.apply c.originalQuantity "original_quantity"
  let quantity ← r.apply c.quantity "source_quantity"
  .ok { c with originalQuantity, quantity }

def restatedSources (r : LotRestatement) (sources : List AverageCostSourceContribution) :
    Except Raised (List AverageCostSourceContribution) :=
  sources.mapM (restatedSource r)

/-- `apply_quantity_restatement`: every source is restated before one is written. -/
def applyQuantityRestatement (r : LotRestatement) : EStateM Raised AvcoBook Unit := do
  let b ← get
  let proposed ← restatedSources r b.activeSources
  let segmentStartQuantity ← r.apply b.segmentStartQuantity
    "source_allocation_segment_start_quantity"
  modify fun b => { b with activeSources := proposed, segmentStartQuantity }

def scaledBasisFactor (currentScale costBefore costAfter : ℚ) (currencyBasis : String) :
    Except Raised ℚ :=
  if costBefore ≤ 0 then
    .error (.valueError ("AVCO " ++ currencyBasis ++
      " cost basis must be positive before transfer"))
  else if costAfter < 0 ∨ costBefore < costAfter then
    .error (.valueError ("AVCO " ++ currencyBasis ++ " cost basis after transfer is invalid"))
  else .ok (workingRound (workingRound (currentScale * costAfter) / costBefore))

/-- `apply_basis_transfer`: a basis moved out completely starts a new cost generation. -/
def applyBasisTransfer (localBefore localAfter baseBefore baseAfter : ℚ) :
    EStateM Raised AvcoBook Unit := do
  let b ← get
  let localScale ← scaledBasisFactor b.costLocalScale localBefore localAfter "local"
  let baseScale ← scaledBasisFactor b.costBaseScale baseBefore baseAfter "base"
  modify fun b => { b with
    costLocalScale := if localScale = 0 then 1 else localScale
    costBaseScale := if baseScale = 0 then 1 else baseScale
    costLocalGeneration := b.costLocalGeneration + if localScale = 0 then 1 else 0
    costBaseGeneration := b.costBaseGeneration + if baseScale = 0 then 1 else 0 }

/-! ## Materialization -/

/-- `_disposal_factor`: the part of a source that disposals have left. -/
def AvcoBook.disposalFactor (b : AvcoBook) (c : AverageCostSourceContribution) :
    Except Raised ℚ :=
  if c.generation ≠ b.generation then .ok 0
  else workingDivide b.disposalScale c.disposalScaleAtEntry

/-- The open quantity a source has now. -/
def materializedQuantity (c : AverageCostSourceContribution) (currentGeneration : ℕ)
    (disposalFactor aggregate allocated : ℚ) : Except Raised ℚ :=
  if c.generation ≠ currentGeneration then .ok 0
  else do
    let share ← allocateNonnegativeStorageShare
      (truncate 10 (workingRound (c.quantity * disposalFactor))) aggregate allocated
      "open_quantity"
    .ok (min share c.originalQuantity)

/-- The first loop of `materialize_book`: the rounded-down quantities and their sum. -/
def AvcoBook.allocateQuantities (b : AvcoBook) :
    List AverageCostSourceContribution → ℚ →
      Except Raised (List (AverageCostSourceContribution × ℚ) × ℚ)
  | [], allocated => .ok ([], allocated)
  | c :: rest, allocated => do
    let factor ← b.disposalFactor c
    let quantity ← materializedQuantity c b.generation factor b.pool.quantity allocated
    let allocated ← costBasisStateLedger.add allocated quantity "allocated_quantity"
    let (quantities, allocated) ← b.allocateQuantities rest allocated
    .ok ((c, quantity) :: quantities, allocated)

/-- `_assign_quantity_residual`, over the sources from the last to the first. -/
def assignQuantityResidual (currentGeneration : ℕ) :
    List (AverageCostSourceContribution × ℚ) → ℚ →
      Except Raised (List (AverageCostSourceContribution × ℚ))
  | [], remaining =>
    if remaining ≠ 0 then
      .error (.valueError "AVCO pool quantity exceeds source original quantity authority")
    else .ok []
  | (c, current) :: rest, remaining =>
    if remaining = 0 then .ok ((c, current) :: rest)
    else if c.generation ≠ currentGeneration then do
      let quantities ← assignQuantityResidual currentGeneration rest remaining
      .ok ((c, current) :: quantities)
    else do
      let headroom ← costBasisStateLedger.subtract c.originalQuantity current
        "source_quantity_headroom"
      let assigned := min remaining headroom
      let quantity ← costBasisStateLedger.add current assigned "open_quantity"
      let remaining ← costBasisStateLedger.subtract remaining assigned
        "unallocated_open_quantity"
      let quantities ← assignQuantityResidual currentGeneration rest remaining
      .ok ((c, quantity) :: quantities)

def AvcoBook.materializedQuantities (b : AvcoBook) :
    Except Raised (List (AverageCostSourceContribution × ℚ)) := do
  let (quantities, allocated) ← b.allocateQuantities b.activeSources 0
  let remaining ← costBasisStateLedger.subtract b.pool.quantity allocated
    "unallocated_open_quantity"
  let reversed ← assignQuantityResidual b.generation quantities.reverse remaining
  .ok reversed.reverse

/-- The last source with an open quantity whose cost belongs to the current generation. -/
def lastCostSourceId (generationOf : AverageCostSourceContribution → ℕ) (current : ℕ)
    (quantities : List (AverageCostSourceContribution × ℚ)) : Option String :=
  quantities.foldl
    (fun last p =>
      if p.2 ≤ 0 then last
      else if generationOf p.1 = current then some p.1.sourceTransactionId else last)
    none

/-- `_materialized_cost`: the last cost source takes what is left of the aggregate. -/
def materializedCost (eligible : Bool) (sourceCost : ℚ) (sourceGeneration currentGeneration : ℕ)
    (sourceTransactionId : String) (lastSourceId : Option String) (scale scaleAtEntry
    disposalFactor aggregate allocated : ℚ) (fieldName : String) : Except Raised ℚ :=
  if !eligible ∨ sourceGeneration ≠ currentGeneration then .ok 0
  else if some sourceTransactionId = lastSourceId then
    costBasisStateLedger.subtract aggregate allocated fieldName
  else do
    let materialized ← workingDivide
      (workingRound (workingRound (sourceCost * disposalFactor) * scale)) scaleAtEntry
    allocateNonnegativeStorageShare materialized aggregate allocated fieldName

/-- The state of one source; `allocated` are the totals of the sources before it. -/
def AvcoBook.materializedState (b : AvcoBook) (lastLocal lastBase : Option String)
    (c : AverageCostSourceContribution) (quantity : ℚ) (allocated : AverageCostPool) :
    Except Raised OpenLotState := do
  let factor ← b.disposalFactor c
  let costLocal ← materializedCost (0 < quantity) c.costLocal c.costLocalGeneration
    b.costLocalGeneration c.sourceTransactionId lastLocal b.costLocalScale c.costLocalScaleAtEntry
    factor b.pool.costLocal allocated.costLocal "lot_cost_local"
  let costBase ← materializedCost (0 < quantity) c.costBase c.costBaseGeneration
    b.costBaseGeneration c.sourceTransactionId lastBase b.costBaseScale c.costBaseScaleAtEntry
    factor b.pool.costBase allocated.costBase "lot_cost_base"
  OpenLotState.new c.originalQuantity quantity costLocal costBase

/-- The last loop of `materialize_book`. -/
def AvcoBook.materializeStates (b : AvcoBook) (lastLocal lastBase : Option String) :
    List (AverageCostSourceContribution × ℚ) → AverageCostPool →
      Except Raised (List (String × OpenLotState))
  | [], _ => .ok []
  | (c, quantity) :: rest, allocated => do
    let state ← b.materializedState lastLocal lastBase c quantity allocated
    let allocated ← stateAfter
      (AverageCostPool.add state.quantity state.costLocal state.costBase) allocated
    let states ← b.materializeStates lastLocal lastBase rest allocated
    .ok ((c.sourceTransactionId, state) :: states)

/-- `materialize_book`: the open state of every active source, in source order. -/
def AvcoBook.materializeBook (b : AvcoBook) : Except Raised (List (String × OpenLotState)) := do
  let quantities ← b.materializedQuantities
  b.materializeStates
    (lastCostSourceId (·.costLocalGeneration) b.costLocalGeneration quantities)
    (lastCostSourceId (·.costBaseGeneration) b.costBaseGeneration quantities) quantities {}

/-- `materialize` for one book: the active states, and closed states for the retired sources. -/
def AvcoBook.openLotStates (b : AvcoBook) : Except Raised (List (String × OpenLotState)) := do
  let active ← b.materializeBook
  let closed ← b.closedSources.mapM fun c => do
    let state ← OpenLotState.closed c.originalQuantity
    .ok (c.sourceTransactionId, state)
  .ok (closed ++ active)

/-! ## Operations of the strategy -/

/-- `AverageCostBasisStrategy.add_buy_lot`. -/
def avcoAddBuyLot (known : List String) (t : CostBasisTransaction) :
    EStateM Raised AvcoBook Unit := do
  match ← validatedBuyLotInputs t with
  | none => pure ()
  | some (quantity, netCost, netCostLocal) =>
    onPool (AverageCostPool.add quantity netCostLocal netCost)
    let original ← resolveSourceLotOriginalQuantity t.sourceLotOriginalQuantity
      t.sourceLotOrderQuantity quantity
    addSource known t quantity original netCostLocal netCost (← get).pool.quantity

/-- An allocation whose costs are still rounded source by source. -/
structure UnreconciledSourceDisposalAllocation where
  sourceLotId : String
  sourceTransactionId : String
  sourceAcquisitionDate : ℤ
  consumedQuantity : ℚ
  consumedCostLocal : ℚ
  consumedCostBase : ℚ
  sourceOriginalQuantity : ℚ
  sourceOpenQuantityBefore : ℚ

/-- The loop of `_apportion_nonnegative_disposal_values`: the last value is the remainder. -/
def apportionDisposalValues (aggregate : ℚ) (fieldName : String) :
    List ℚ → ℚ → Except Raised (List ℚ)
  | [], _ => .error
    (.valueError (fieldName ++ " disposal requires at least one source allocation"))
  | [_], allocated => do
    let share ← costBasisStateLedger.subtract aggregate allocated fieldName
    .ok [share]
  | candidate :: next :: rest, allocated => do
    let share ← allocateNonnegativeStorageShare (max candidate 0) aggregate allocated fieldName
    let allocated ← costBasisStateLedger.add allocated share ("allocated_" ++ fieldName)
    let shares ← apportionDisposalValues aggregate fieldName (next :: rest) allocated
    .ok (share :: shares)

def reconciledAllocation (row : (UnreconciledSourceDisposalAllocation × ℚ) × (ℚ × ℚ) × ℕ) :
    Except Raised SourceLotDisposalAllocation :=
  let ((a, quantity), (costLocal, costBase), index) := row
  SourceLotDisposalAllocation.new a.sourceLotId a.sourceTransactionId a.sourceAcquisitionDate
    (index + 1) quantity costLocal costBase a.sourceOriginalQuantity a.sourceOpenQuantityBefore

def reconcileDisposalAllocationResiduals
    (allocations : List UnreconciledSourceDisposalAllocation) (costBase costLocal quantity : ℚ) :
    Except Raised (List SourceLotDisposalAllocation) := do
  let sources := allocations.filter (0 < ·.consumedQuantity)
  let quantities ← apportionDisposalValues quantity "consumed_quantity"
    (sources.map (·.consumedQuantity)) 0
  let rows := (sources.zip quantities).filter (0 < ·.2)
  let localCosts ← apportionDisposalValues costLocal "disposed_cost_local"
    (rows.map (·.1.consumedCostLocal)) 0
  let baseCosts ← apportionDisposalValues costBase "disposed_cost_base"
    (rows.map (·.1.consumedCostBase)) 0
  (rows.zip ((localCosts.zip baseCosts).zip (List.range rows.length))).mapM reconciledAllocation

def sourceDisposal (statesAfter : List (String × OpenLotState))
    (p : AverageCostSourceContribution × (String × OpenLotState)) :
    Except Raised UnreconciledSourceDisposalAllocation := do
  let (c, _, before) := p
  let after ← match statesAfter.lookup c.sourceTransactionId with
    | some state => .ok state
    | none => OpenLotState.closed c.quantity
  let quantity ← costBasisStateLedger.subtract before.quantity after.quantity "consumed_quantity"
  let costLocal ← costBasisStateLedger.subtract before.costLocal after.costLocal
    "disposed_cost_local"
  let costBase ← costBasisStateLedger.subtract before.costBase after.costBase
    "disposed_cost_base"
  .ok ⟨c.sourceLotId, c.sourceTransactionId, c.sourceAcquisitionDate, quantity, costLocal,
    costBase, before.originalQuantity, before.quantity⟩

def sourceDisposals (sources : List AverageCostSourceContribution)
    (statesBefore statesAfter : List (String × OpenLotState)) :
    Except Raised (List UnreconciledSourceDisposalAllocation) :=
  (sources.zip statesBefore).mapM (sourceDisposal statesAfter)

/-- `AverageCostBasisStrategy.consume_sell_quantity_with_allocations`. -/
def avcoConsume (sellQuantity : ℚ) : EStateM Raised AvcoBook LotDisposalResult := do
  let b ← get
  match nonPositiveSellQuantityError sellQuantity with
  | some reason => pure (.failed reason)
  | none =>
    if b.pool.quantity < sellQuantity then
      pure (.failed ("Sell quantity (" ++ decimalText sellQuantity ++
        ") exceeds available average cost holdings (" ++ decimalText b.pool.quantity ++ ")."))
    else if b.pool.quantity = 0 then
      pure (.failed "No holdings to sell against (Average Cost method).")
    else if sellQuantity = 0 then pure .empty
    else
      let statesBefore ← b.materializeBook
      let (costBase, costLocal) ← onPool (AverageCostPool.dispose sellQuantity)
      applyDisposal b.pool.quantity (← get).pool.quantity
      let statesAfter ← (← get).materializeBook
      let disposals ← sourceDisposals b.activeSources statesBefore statesAfter
      let allocations ← reconcileDisposalAllocationResiduals disposals costBase costLocal
        sellQuantity
      LotDisposalResult.new costBase costLocal sellQuantity allocations

/-- `AverageCostBasisStrategy.restate_lot_quantities`. -/
def avcoRestate (signedQuantityDelta : ℚ) : EStateM Raised AvcoBook LotRestatement := do
  let b ← get
  let restatement ← LotRestatement.fromSignedDelta b.pool.quantity signedQuantityDelta
  let segmentStartQuantity ← restatement.apply b.pool.segmentStartQuantity
    "segment_start_quantity"
  applyQuantityRestatement restatement
  modify fun b => { b with pool := { b.pool with
    quantity := restatement.quantityAfter
    segmentStartQuantity } }
  pure restatement

/-- The states of each source before and after a transfer. -/
def avcoMovements (sources : List AverageCostSourceContribution)
    (statesBefore statesAfter : List (String × OpenLotState)) : List SourceLotMovement :=
  (sources.zip (statesBefore.zip statesAfter)).map fun (c, before, after) =>
    ⟨c.sourceLotId, c.sourceTransactionId, c.sourceAcquisitionDate, before.2, after.2⟩

/-- `AverageCostBasisStrategy.transfer_basis_out_with_allocations`. -/
def avcoTransferBasisOut (costBase costLocal : ℚ) :
    EStateM Raised AvcoBook LotBasisTransferResult := do
  let b ← get
  match basisTransferAmountError costBase costLocal b.pool.costBase b.pool.costLocal with
  | some reason => pure (.failed reason)
  | none =>
    let statesBefore ← b.materializeBook
    onPool (AverageCostPool.transferBasisOut costLocal costBase)
    let pool := (← get).pool
    applyBasisTransfer b.pool.costLocal pool.costLocal b.pool.costBase pool.costBase
    let statesAfter ← (← get).materializeBook
    basisTransferResult (avcoMovements b.activeSources statesBefore statesAfter) costLocal costBase

end LotusCore
