import LotusCore.Data.Cover
import LotusCore.Data.Table
import LotusCore.Position.Reducer

/-!
# Position history

The history of a position is one record per booked transaction, in a canonical order, each with the
balance after it and a lineage that names the record before it. It starts from nothing or from an
anchor, a record of an earlier history.

* `PositionOrderKey`, `orderPositionTransactions`: the order.
* `recordsFrom`: the records of an ordered list.
* `buildPositionHistory`: the history.
* `recordsFrom_append`: the records of two lists in a row.
* `buildPositionHistory_resumes`: a history continues from any of its records.
* **`buildPositionHistory_kept`**: what holds of every balance of a history.
-/

namespace LotusCore

open Exec Table Decimal List

/-! ## Order -/

def microsecondsPerDay : ℤ := 86400000000

def Timestamp.date (d : Timestamp) : ℤ := d.instant / microsecondsPerDay

/-- `PositionTransactionOrderKey`: date, time, corporate-action rank, child sequence, target
instrument, restatement quantity and identity, time of ingestion and identity. -/
abbrev PositionOrderKey := ℤ ×ₗ ℤ ×ₗ ℤ ×ₗ ℤ ×ₗ String ×ₗ ℚ ×ₗ String ×ₗ ℤ ×ₗ String

/-- `same_time_restatement_order_key`, or its default. -/
def restatementOrder (t : CostBasisTransaction) : ℚ × String :=
  if t.transactionType.isSameInstrumentCorporateAction then
    (ambientContext.round (-t.quantity), t.transactionId)
  else (0, "")

def PositionTransaction.orderKey (t : PositionTransaction) : PositionOrderKey :=
  toLex (t.transactionDate.date, toLex (t.transactionDate.instant,
    toLex (t.terms.transactionType.dependencyRank, toLex (t.terms.targetSequence,
      toLex (t.terms.targetInstrumentId.getD "", toLex ((restatementOrder t.terms).1,
        toLex ((restatementOrder t.terms).2, toLex ((t.createdAt.map (·.instant)).getD 0,
          t.terms.transactionId))))))))

def canonicalOrderingDatetime (d : Timestamp) (fieldName : String) : Except Raised Unit :=
  if d.aware then .ok ()
  else .error (.valueError ("Position-history " ++ fieldName ++ " must be timezone-aware."))

def positionTransactionOrderingKey (t : PositionTransaction) : Except Raised PositionOrderKey := do
  canonicalOrderingDatetime t.transactionDate "transaction_date"
  match t.createdAt with
  | some d => canonicalOrderingDatetime d "created_at"
  | none => .ok ()
  .ok t.orderKey

/-- `order_position_transactions`: a stable sort, after every key was computed. -/
def orderPositionTransactions (transactions : List PositionTransaction) :
    Except Raised (List PositionTransaction) := do
  let _ ← transactions.mapM positionTransactionOrderingKey
  .ok (transactions.insertionSort fun a b => a.orderKey ≤ b.orderKey)

/-! ## Records -/

structure PositionHistoryRecord where
  portfolioId : String
  securityId : String
  transactionId : String
  positionDate : ℤ
  quantity : ℚ
  costBasis : ℚ
  costBasisLocal : ℚ
  epoch : ℤ
  calculationLineage : Option CalculationLineage := none
  deriving DecidableEq

def PositionHistoryRecord.balance (r : PositionHistoryRecord) : PositionBalanceState :=
  ⟨r.quantity, r.costBasis, r.costBasisLocal⟩

/-- `_position_history_lineage_input`; the fields of the transaction are read off it. -/
structure PositionLineageInput where
  epoch : ℤ
  previousBalance : PositionBalanceState
  priorLineage : Option CalculationLineage
  transaction : PositionTransaction
  effectiveProcessingType : TransactionType
  orderingKey : PositionOrderKey

/-- The digests of the lineage, as functions of what they are taken of. -/
structure LineageDigests where
  input : PositionLineageInput → String
  calculation : String → String
  output : String → PositionHistoryRecord → String

variable {records : List PositionHistoryRecord} {l : List PositionTransaction}

section History

variable (digests : LineageDigests) (epoch : ℤ)

/-- `build_calculation_lineage` for one record. -/
def positionLineage (input : PositionLineageInput) (output : PositionHistoryRecord) :
    CalculationLineage :=
  let inputContentHash := digests.input input
  let calculationContentHash := digests.calculation inputContentHash
  { algorithmId := "position-history-state-transition"
    algorithmVersion := 1
    intermediatePrecision := positionHistoryLedger.workingPrecision
    inputContentHash := inputContentHash
    calculationContentHash := calculationContentHash
    outputContentHash := digests.output calculationContentHash output
    numericOutputPolicy := some positionHistoryLedger.persistence.name }

/-- One pass of the loop of `build_position_history`. -/
def nextRecord (previous : PositionBalanceState) (priorLineage : Option CalculationLineage)
    (t : PositionTransaction) : Except Raised PositionHistoryRecord := do
  let balance ← calculateNextPositionState previous t.terms
  let output : PositionHistoryRecord :=
    { portfolioId := t.terms.portfolioId
      securityId := t.terms.securityId
      transactionId := t.terms.transactionId
      positionDate := t.transactionDate.date
      quantity := balance.quantity
      costBasis := balance.costBasis
      costBasisLocal := balance.costBasisLocal
      epoch := epoch }
  let input : PositionLineageInput :=
    ⟨epoch, previous, priorLineage, t, effectiveProcessingType t.terms, t.orderKey⟩
  .ok { output with calculationLineage := some (positionLineage digests input output) }

def recordsFrom : PositionBalanceState → Option CalculationLineage → List PositionTransaction →
    Except Raised (List PositionHistoryRecord)
  | _, _, [] => .ok []
  | balance, lineage, t :: rest => do
    let record ← nextRecord digests epoch balance lineage t
    let records ← recordsFrom record.balance record.calculationLineage rest
    .ok (record :: records)

def PositionTransaction.key (t : PositionTransaction) : String × String :=
  (t.terms.portfolioId, t.terms.securityId)

def PositionHistoryRecord.key (r : PositionHistoryRecord) : String × String :=
  (r.portfolioId, r.securityId)

/-- `_require_single_position_key`, for transactions after a first one. -/
def requireSinglePositionKey (anchor : Option PositionHistoryRecord) (first : PositionTransaction)
    (rest : List PositionTransaction) : Except Raised Unit :=
  if (∀ t ∈ rest, t.key = first.key) ∧ ∀ a ∈ anchor, a.key = first.key then .ok ()
  else .error (.valueError
    "Position history requires transactions and anchor for one portfolio-security key")

def buildPositionHistory (anchor : Option PositionHistoryRecord)
    (transactions : List PositionTransaction) : Except Raised (List PositionHistoryRecord) := do
  match ← orderPositionTransactions transactions with
  | [] => .ok []
  | first :: rest =>
    requireSinglePositionKey anchor first rest
    recordsFrom digests epoch ((anchor.map (·.balance)).getD {})
      (anchor.bind (·.calculationLineage)) (first :: rest)

/-! ## Two lists in a row -/

variable {digests epoch}

def endBalance (start : PositionBalanceState) (records : List PositionHistoryRecord) :
    PositionBalanceState := (records.getLast?.map (·.balance)).getD start

def endLineage (start : Option CalculationLineage) (records : List PositionHistoryRecord) :
    Option CalculationLineage := (records.getLast?.map (·.calculationLineage)).getD start

theorem endBalance_cons (start : PositionBalanceState) (r : PositionHistoryRecord)
    (records : List PositionHistoryRecord) :
    endBalance start (r :: records) = endBalance r.balance records := by
  unfold endBalance
  cases h : records.getLast? <;> simp [List.getLast?_cons, h]

theorem endLineage_cons (start : Option CalculationLineage) (r : PositionHistoryRecord)
    (records : List PositionHistoryRecord) :
    endLineage start (r :: records) = endLineage r.calculationLineage records := by
  unfold endLineage
  cases h : records.getLast? <;> simp [List.getLast?_cons, h]

variable {lineage : Option CalculationLineage} {balance : PositionBalanceState}

theorem recordsFrom_append {xs ys : List PositionTransaction}
    (h : recordsFrom digests epoch balance lineage (xs ++ ys) = .ok records) :
    ∃ first second, recordsFrom digests epoch balance lineage xs = .ok first ∧
      recordsFrom digests epoch (endBalance balance first) (endLineage lineage first) ys =
        .ok second ∧
      records = first ++ second := by
  induction xs generalizing balance lineage records with
  | nil => exact ⟨[], records, rfl, h, rfl⟩
  | cons t xs ih =>
    obtain ⟨record, hrecord, h⟩ := except_bind_eq_ok.mp h
    obtain ⟨rest, hrest, h⟩ := except_bind_eq_ok.mp h
    cases h
    obtain ⟨first, second, hfirst, hsecond, rfl⟩ := ih hrest
    refine ⟨record :: first, second, ?_, ?_, rfl⟩
    · exact except_bind_eq_ok.mpr ⟨record, hrecord, except_bind_eq_ok.mpr ⟨first, hfirst, rfl⟩⟩
    · rwa [endBalance_cons, endLineage_cons]

theorem recordsFrom_forall₂ (h : recordsFrom digests epoch balance lineage l = .ok records) :
    List.Forall₂ (fun t r => r.key = t.key) l records := by
  induction l generalizing balance lineage records with
  | nil =>
    cases h
    exact .nil
  | cons t l ih =>
    obtain ⟨record, hrecord, h⟩ := except_bind_eq_ok.mp h
    obtain ⟨rest, hrest, h⟩ := except_bind_eq_ok.mp h
    cases h
    obtain ⟨_, _, hrecord⟩ := except_bind_eq_ok.mp hrecord
    cases hrecord
    exact .cons rfl (ih hrest)

end History

/-! ## The order of two lists -/

/-- The times of a transaction name their zones. -/
def PositionTransaction.Zoned (t : PositionTransaction) : Prop :=
  t.transactionDate.aware = true ∧ ∀ d ∈ t.createdAt, d.aware = true

theorem positionTransactionOrderingKey_ok_iff {t : PositionTransaction} :
    (∃ key, positionTransactionOrderingKey t = .ok key) ↔ t.Zoned := by
  unfold positionTransactionOrderingKey canonicalOrderingDatetime PositionTransaction.Zoned
  cases hdate : t.transactionDate.aware
  · simp [bind, Except.bind]
  · cases t.createdAt with
    | none => simp [bind, Except.bind]
    | some d => cases hd : d.aware <;> simp [bind, Except.bind, hd]

theorem orderPositionTransactions_eq_ok {l ordered : List PositionTransaction} :
    orderPositionTransactions l = .ok ordered ↔
      (∀ t ∈ l, t.Zoned) ∧ ordered = l.insertionSort fun a b => a.orderKey ≤ b.orderKey := by
  simp only [← positionTransactionOrderingKey_ok_iff]
  rw [← except_mapM_exists_ok]
  constructor
  · intro h
    obtain ⟨keys, hkeys, h⟩ := except_bind_eq_ok.mp h
    cases h
    exact ⟨⟨keys, hkeys⟩, rfl⟩
  · rintro ⟨⟨keys, hkeys⟩, rfl⟩
    exact except_bind_eq_ok.mpr ⟨keys, hkeys, rfl⟩

theorem orderKeys_nodup
    (hids : (l.map (·.terms.transactionId)).Nodup) : (l.map (·.orderKey)).Nodup := by
  -- the id is the last component of the key
  refine List.Nodup.of_map (fun k : PositionOrderKey =>
    (ofLex (ofLex (ofLex (ofLex (ofLex (ofLex (ofLex (ofLex k).2).2).2).2).2).2).2).2) ?_
  rw [map_map]
  exact hids

/-! ## Resuming -/

section Resume

variable (digests : LineageDigests) (epoch : ℤ)

/-- The transactions and the anchor belong to one position. -/
def OnePosition (anchor : Option PositionHistoryRecord) (l : List PositionTransaction) : Prop :=
  ∃ key, (∀ t ∈ l, t.key = key) ∧ ∀ a ∈ anchor, a.key = key

variable {anchor : Option PositionHistoryRecord}

theorem requireSinglePositionKey_ok_iff
    {first : PositionTransaction} {rest : List PositionTransaction} :
    requireSinglePositionKey anchor first rest = .ok () ↔ OnePosition anchor (first :: rest) := by
  unfold requireSinglePositionKey
  have hone : ((∀ t ∈ rest, t.key = first.key) ∧ ∀ a ∈ anchor, a.key = first.key) ↔
      OnePosition anchor (first :: rest) := by
    unfold OnePosition
    constructor
    · rintro ⟨hrest, hanchor⟩
      exact ⟨first.key, forall_mem_cons.mpr ⟨rfl, hrest⟩, hanchor⟩
    · rintro ⟨key, hall, hanchor⟩
      obtain ⟨rfl, hrest⟩ := forall_mem_cons.mp hall
      exact ⟨hrest, hanchor⟩
  rw [← hone]
  by_cases h : (∀ t ∈ rest, t.key = first.key) ∧ ∀ a ∈ anchor, a.key = first.key
  · rw [if_pos h]
    exact iff_of_true rfl h
  · rw [if_neg h]
    exact iff_of_false (fun hok => nomatch hok) h

theorem OnePosition.congr {l l' : List PositionTransaction} (h : ∀ t, t ∈ l ↔ t ∈ l') :
    OnePosition anchor l ↔ OnePosition anchor l' := by
  simp only [OnePosition, h]

theorem buildPositionHistory_eq_ok :
    buildPositionHistory digests epoch anchor l = .ok records ↔
      (∀ t ∈ l, t.Zoned) ∧ (l ≠ [] → OnePosition anchor l) ∧
        recordsFrom digests epoch ((anchor.map (·.balance)).getD {})
          (anchor.bind (·.calculationLineage))
          (l.insertionSort fun a b => a.orderKey ≤ b.orderKey) = .ok records := by
  have hmem : ∀ t, t ∈ (l.insertionSort fun a b => a.orderKey ≤ b.orderKey) ↔ t ∈ l :=
    fun t => mem_insertionSort _
  have hnil : (l.insertionSort fun a b => a.orderKey ≤ b.orderKey) = [] ↔ l = [] := by
    simp only [eq_nil_iff_forall_not_mem, hmem]
  unfold buildPositionHistory
  rw [except_bind_eq_ok]
  simp only [orderPositionTransactions_eq_ok, and_assoc, exists_and_left, exists_eq_left]
  refine and_congr_right fun _ => ?_
  cases hsort : l.insertionSort fun a b => a.orderKey ≤ b.orderKey with
  | nil =>
    rw [hsort] at hnil
    simp [hnil.mp rfl, recordsFrom]
  | cons first rest =>
    rw [hsort] at hnil hmem
    have hne : l ≠ [] := fun h => cons_ne_nil _ _ (hnil.mpr h)
    rw [← OnePosition.congr hmem, ← requireSinglePositionKey_ok_iff]
    dsimp only
    rw [except_bind_eq_ok]
    constructor
    · rintro ⟨_, hkey, hrec⟩
      exact ⟨fun _ => hkey, hrec⟩
    · rintro ⟨hkey, hrec⟩
      exact ⟨(), hkey hne, hrec⟩

/-- A history continues from any of its records: the records of all transactions are those of the
earlier ones, followed by those of the later ones from the last record before them. -/
theorem buildPositionHistory_resumes (transactions earlier later : List PositionTransaction)
    (records : List PositionHistoryRecord) (hsupplied : transactions.Perm (earlier ++ later))
    (hids : (transactions.map (·.terms.transactionId)).Nodup) (hearlier : earlier ≠ [])
    (hlt : ∀ a ∈ earlier, ∀ b ∈ later, a.orderKey < b.orderKey)
    (h : buildPositionHistory digests epoch none transactions = .ok records) :
    ∃ first last second, buildPositionHistory digests epoch none earlier = .ok first ∧
      first.getLast? = some last ∧
      buildPositionHistory digests epoch (some last) later = .ok second ∧
      records = first ++ second := by
  obtain ⟨hzoned, hone, hrecords⟩ := (buildPositionHistory_eq_ok digests epoch).mp h
  rw [Cover.insertionSort_of_perm_append hsupplied (orderKeys_nodup hids) hlt] at hrecords
  obtain ⟨first, second, hfirst, hsecond, rfl⟩ := recordsFrom_append hrecords
  have hmem : ∀ t ∈ earlier ++ later, t ∈ transactions := fun t ht => hsupplied.mem_iff.mpr ht
  have hne : transactions ≠ [] := by
    intro hnil
    rw [hnil, nil_perm, append_eq_nil_iff] at hsupplied
    exact hearlier hsupplied.1
  obtain ⟨key, hkey, _⟩ := hone hne
  -- the last record of the first part is of this position
  have hmatch := recordsFrom_forall₂ hfirst
  have hlen := hmatch.length_eq
  rw [length_insertionSort] at hlen
  cases hlast : first.getLast? with
  | none =>
    rw [List.getLast?_eq_none_iff.mp hlast, length_nil, length_eq_zero_iff] at hlen
    exact absurd hlen hearlier
  | some last =>
    have hlastkey : last.key = key := by
      obtain ⟨t, ht, hk⟩ := exists_mem_of_forall₂ hmatch.flip (mem_of_getLast? hlast)
      rw [hk]
      exact hkey t (hmem t (mem_append_left _ ((mem_insertionSort _).mp ht)))
    refine ⟨first, last, second, ?_, hlast, ?_, rfl⟩
    · refine (buildPositionHistory_eq_ok digests epoch).mpr ⟨fun t ht => ?_, fun _ => ?_, hfirst⟩
      · exact hzoned t (hmem t (mem_append_left _ ht))
      · exact ⟨key, fun t ht => hkey t (hmem t (mem_append_left _ ht)), by simp⟩
    · refine (buildPositionHistory_eq_ok digests epoch).mpr ⟨fun t ht => ?_, fun _ => ?_, ?_⟩
      · exact hzoned t (hmem t (mem_append_right _ ht))
      · refine ⟨key, fun t ht => hkey t (hmem t (mem_append_right _ ht)), ?_⟩
        rintro a ⟨⟩
        exact hlastkey
      · simpa [endBalance, endLineage, hlast] using hsecond

/-- A purchase of ten units for 100, or a sale of four of them. -/
def sampleTransaction (id : String) (type : TransactionType) (date : ℤ) (quantity cost : ℚ) :
    PositionTransaction where
  terms :=
    { transactionId := id
      portfolioId := "P"
      instrumentId := "S"
      securityId := "S"
      transactionType := type
      transactionDate := date
      quantity := quantity
      grossTransactionAmount := 100
      tradeCurrency := "USD"
      portfolioBaseCurrency := "USD"
      netCost := some cost
      netCostLocal := some cost }
  transactionDate := ⟨date, true⟩

/-- The record of one of them, with the digests all empty. -/
def sampleRecord (id : String) (quantity cost : ℚ) : PositionHistoryRecord where
  portfolioId := "P"
  securityId := "S"
  transactionId := id
  positionDate := 0
  quantity := quantity
  costBasis := cost
  costBasisLocal := cost
  epoch := 0
  calculationLineage := some (positionLineage ⟨fun _ => "", fun _ => "", fun _ _ => ""⟩
    ⟨0, {}, none, sampleTransaction id .buy 0 0 0, .buy, (sampleTransaction id .buy 0 0 0).orderKey⟩
    ⟨"", "", "", 0, 0, 0, 0, 0, none⟩)

theorem buildPositionHistory_resumes_sale :
    buildPositionHistory ⟨fun _ => "", fun _ => "", fun _ _ => ""⟩ 0 none
        [sampleTransaction "T2" .sell 2 4 (-40), sampleTransaction "T1" .buy 1 10 100] =
      .ok [sampleRecord "T1" 10 100, sampleRecord "T2" 6 60] ∧
    ∃ first last second,
      buildPositionHistory ⟨fun _ => "", fun _ => "", fun _ _ => ""⟩ 0 none
        [sampleTransaction "T1" .buy 1 10 100] = .ok first ∧
      first.getLast? = some last ∧
      buildPositionHistory ⟨fun _ => "", fun _ => "", fun _ _ => ""⟩ 0 (some last)
        [sampleTransaction "T2" .sell 2 4 (-40)] = .ok second ∧
      [sampleRecord "T1" 10 100, sampleRecord "T2" 6 60] = first ++ second :=
  ⟨by decide +kernel, buildPositionHistory_resumes _ _ _ _ _ _ (List.Perm.swap _ _ _)
    (by decide +kernel) (by decide) (by decide +kernel) (by decide +kernel)⟩

end Resume

/-! ## Kept balances -/

namespace PositionBalanceState

/-- The ledger holds every amount of the balance. -/
structure Stored (b : PositionBalanceState) : Prop where
  quantity : Storable b.quantity
  costBasis : Storable b.costBasis
  costBasisLocal : Storable b.costBasisLocal

/-- The ledger holds the balance, and a flat position has no cost. -/
structure Kept (b : PositionBalanceState) : Prop extends b.Stored where
  flat : b.quantity = 0 → b.costBasis = 0 ∧ b.costBasisLocal = 0

end PositionBalanceState

section Kept

variable {state b : PositionBalanceState} {t : CostBasisTransaction}

theorem positionState_eq_ok {q c l : ℚ} (h : positionState q c l = .ok b) :
    b = ⟨quantize 10 q, quantize 10 c, quantize 10 l⟩ ∧ b.Stored := by
  unfold positionState at h
  simp only [except_bind_eq_ok] at h
  obtain ⟨_, hq, _, hc, _, hl, h⟩ := h
  cases h
  obtain ⟨rfl, hq⟩ := Ledger.normalize_eq_ok.mp hq
  obtain ⟨rfl, hc⟩ := Ledger.normalize_eq_ok.mp hc
  obtain ⟨rfl, hl⟩ := Ledger.normalize_eq_ok.mp hl
  exact ⟨rfl, hq, hc, hl⟩

theorem positionUpdateHandler_stored {type : TransactionType} (hs : state.Stored)
    (h : positionUpdateHandler state t type = some (.ok b)) : b.Stored := by
  have hstate {q c l : ℚ} (h : some (positionState q c l) = some (.ok b)) : b.Stored :=
    (positionState_eq_ok (Option.some.inj h)).2
  unfold positionUpdateHandler at h
  split_ifs at h
  · exact hstate h
  · exact hstate h
  · obtain ⟨_, -, h⟩ := except_bind_eq_ok.mp (Option.some.inj h)
    exact (positionState_eq_ok h).2
  · unfold transferPositionState at h
    split_ifs at h
    · cases h
      exact hs
    · exact hstate h
  · exact hstate h
  · exact hstate h
  · exact hstate h
  · exact hstate h

theorem zeroedCostBasisWhenFlat_kept (hs : state.Stored)
    (h : zeroedCostBasisWhenFlat state = .ok b) : b.Kept := by
  unfold zeroedCostBasisWhenFlat at h
  split_ifs at h with hflat
  · cases h
    exact ⟨hs, fun h => absurd h hflat⟩
  · obtain ⟨rfl, hstored⟩ := positionState_eq_ok h
    have hzero := quantize_of_onGrid storable_zero.onGrid
    exact ⟨hstored, fun _ => ⟨hzero, hzero⟩⟩

theorem calculateNextPositionState_kept (hs : state.Stored)
    (h : calculateNextPositionState state t = .ok b) : b.Kept := by
  unfold calculateNextPositionState at h
  cases hhandler : positionUpdateHandler state t (effectiveProcessingType t) with
  | some result =>
    rw [hhandler] at h
    obtain ⟨b', rfl, h⟩ := except_bind_eq_ok.mp h
    exact zeroedCostBasisWhenFlat_kept (positionUpdateHandler_stored hs hhandler) h
  | none =>
    rw [hhandler] at h
    obtain ⟨_, -, h⟩ := except_bind_eq_ok.mp h
    exact zeroedCostBasisWhenFlat_kept hs h

theorem recordsFrom_kept {digests : LineageDigests} {epoch : ℤ}
    {lineage : Option CalculationLineage} (hs : state.Stored)
    (h : recordsFrom digests epoch state lineage l = .ok records) :
    ∀ r ∈ records, r.balance.Kept := by
  induction l generalizing state lineage records with
  | nil =>
    cases h
    exact forall_mem_nil _
  | cons t l ih =>
    obtain ⟨record, hrecord, h⟩ := except_bind_eq_ok.mp h
    obtain ⟨rest, hrest, h⟩ := except_bind_eq_ok.mp h
    cases h
    obtain ⟨b, hb, hrecord⟩ := except_bind_eq_ok.mp hrecord
    cases hrecord
    have hkept := calculateNextPositionState_kept hs hb
    exact forall_mem_cons.mpr ⟨hkept, ih hkept.toStored hrest⟩

/-- **Position histories.** Every record of a history holds values of the ledger and no cost for a
flat position, and the order in which the transactions are supplied has no influence. -/
theorem buildPositionHistory_kept (digests : LineageDigests) (epoch : ℤ)
    {anchor : Option PositionHistoryRecord} (hanchor : ∀ a ∈ anchor, a.balance.Stored)
    (h : buildPositionHistory digests epoch anchor l = .ok records) :
    (∀ r ∈ records, r.balance.Kept) ∧
    ((l.map (·.terms.transactionId)).Nodup → ∀ l', l'.Perm l →
      buildPositionHistory digests epoch anchor l' = .ok records) := by
  obtain ⟨hzoned, hone, hrecords⟩ := (buildPositionHistory_eq_ok digests epoch).mp h
  constructor
  · refine recordsFrom_kept ?_ hrecords
    cases anchor with
    | none => exact ⟨storable_zero, storable_zero, storable_zero⟩
    | some a => exact hanchor a rfl
  · intro hids l' hperm
    have hids' := (hperm.map (·.terms.transactionId)).nodup_iff.mpr hids
    refine (buildPositionHistory_eq_ok digests epoch).mpr
      ⟨fun t ht => hzoned t (hperm.subset ht), fun hne => ?_, ?_⟩
    · refine (OnePosition.congr fun t => hperm.mem_iff).mpr (hone ?_)
      rintro rfl
      exact hne hperm.eq_nil
    · rw [← append_nil l] at hperm
      rw [Cover.insertionSort_of_perm_append hperm (orderKeys_nodup hids') (by simp)]
      simpa using hrecords

theorem buildPositionHistory_kept_sale :
    buildPositionHistory ⟨fun _ => "", fun _ => "", fun _ _ => ""⟩ 0 none
        [sampleTransaction "T1" .buy 1 10 100, sampleTransaction "T2" .sell 2 4 (-40)] =
      .ok [sampleRecord "T1" 10 100, sampleRecord "T2" 6 60] :=
  (buildPositionHistory_kept _ 0 (by simp) (by decide +kernel)).2 (by decide) _ (.swap _ _ _)

end Kept

end LotusCore
