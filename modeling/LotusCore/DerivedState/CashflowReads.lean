import LotusCore.Data.Ordered
import LotusCore.DerivedState.PositionDay

/-!
# Corrected cashflows

A correction books a cashflow again under a higher epoch. The cashflows of one day are read alone
when the day is materialized itself, and with other days when it is materialized after an earlier
one. Each read keeps the row with the highest epoch of a transaction among the rows it has selected,
so a cashflow that was moved to another day is read on its old day as well.

* `CashflowTable`: all cashflows; `CashflowTable.slice`: those of one position.
* **`cashflow_reads_agree_iff`**: the reads agree, and show a transaction on the day of its latest
  row only, exactly when no correction has moved a cashflow to another day.
-/

namespace LotusCore.DerivedState

open List

/-! ## Cashflows of a day -/

section Cashflows

/-- The order of `CashflowTiming` texts. -/
def CashflowTiming.rank : CashflowTiming → ℕ
  | .bod => 0
  | .eod => 1

def latestEpochCashflows (candidates : List PositionCashflowRecord) : List PositionCashflowRecord :=
  candidates.filter fun c =>
    ∀ q ∈ candidates, q.transactionId = c.transactionId → q.epoch ≤ c.epoch

def orderCashflows (cashflows : List PositionCashflowRecord) : List PositionCashflowRecord :=
  cashflows.insertionSort fun a b =>
    a.timing.rank < b.timing.rank ∨ (a.timing = b.timing ∧ a.transactionId ≤ b.transactionId)

variable (table : List PositionCashflowRecord)

def getAllCashflowsForSecurityDate (date : ℤ) (epoch : ℕ) : List PositionCashflowRecord :=
  orderCashflows (latestEpochCashflows
    (table.filter fun c => c.cashflowDate = date ∧ c.epoch ≤ epoch))

/-- The cashflows of one of the dates read by `get_cashflows_for_security_dates`; the latest epoch
of a transaction is taken over all dates read. -/
def getCashflowsForSecurityDates (dates : List ℤ) (epoch : ℕ) (date : ℤ) :
    List PositionCashflowRecord :=
  orderCashflows ((latestEpochCashflows
    (table.filter fun c => c.cashflowDate ∈ dates ∧ c.epoch ≤ epoch)).filter
      fun c => c.cashflowDate = date)

/-- The cashflows of a transaction up to the epoch lie on one date. -/
def OneDatePerTransaction (epoch : ℕ) : Prop :=
  ∀ c ∈ table, ∀ q ∈ table, c.epoch ≤ epoch → q.epoch ≤ epoch →
    q.transactionId = c.transactionId → q.cashflowDate = c.cashflowDate

variable {table}

theorem getCashflowsForSecurityDates_eq {dates : List ℤ} {epoch : ℕ} {date : ℤ}
    (h : OneDatePerTransaction table epoch) (hd : date ∈ dates) :
    getCashflowsForSecurityDates table dates epoch date =
      getAllCashflowsForSecurityDate table date epoch := by
  unfold getCashflowsForSecurityDates getAllCashflowsForSecurityDate latestEpochCashflows
  congr 1
  rw [filter_filter, filter_filter, filter_filter]
  refine filter_congr fun c hc => ?_
  simp only [mem_filter, decide_eq_true_eq, ← Bool.decide_and, decide_eq_decide]
  constructor
  · rintro ⟨⟨rfl, hmax⟩, -, hepoch⟩
    exact ⟨fun q hq => hmax q ⟨hq.1, hq.2.1 ▸ hd, hq.2.2⟩, rfl, hepoch⟩
  · rintro ⟨hmax, rfl, hepoch⟩
    refine ⟨⟨rfl, fun q hq hid => ?_⟩, hd, hepoch⟩
    exact hmax q ⟨hq.1, h c hc q hq.1 hepoch hq.2.2 hid, hq.2.2⟩ hid

end Cashflows

/-! ## Rows -/

/-- A row of `cashflows`: the record with the position it belongs to. -/
structure CashflowRow where
  portfolioId : String
  securityId : Option String
  record : PositionCashflowRecord
  deriving DecidableEq

structure CashflowTable where
  rows : List CashflowRow
  unique : (rows.map fun c => (c.record.transactionId, c.record.epoch)).Nodup

namespace CashflowTable

variable (table : CashflowTable)

def slice (portfolioId securityId : String) : List PositionCashflowRecord :=
  (table.rows.filter fun c => sqlTrim c.portfolioId = strip portfolioId ∧
    c.securityId.map sqlTrim = some (strip securityId)).map CashflowRow.record

/-- The cashflow of a transaction with the highest epoch not above `epoch`. -/
def IsLatest (epoch : ℕ) (transactionId : String) (c : PositionCashflowRecord) : Prop :=
  c ∈ table.rows.map CashflowRow.record ∧ c.transactionId = transactionId ∧ c.epoch ≤ epoch ∧
    ∀ q ∈ table.rows.map CashflowRow.record, q.transactionId = transactionId → q.epoch ≤ epoch →
      q.epoch ≤ c.epoch

end CashflowTable

/-! ## The latest rows -/

section Latest

variable {rows : List PositionCashflowRecord} {c : PositionCashflowRecord} {epoch : ℕ} {date : ℤ}

theorem exists_latest_epoch (hc : c ∈ rows) (he : c.epoch ≤ epoch) :
    ∃ m ∈ rows, m.transactionId = c.transactionId ∧ m.epoch ≤ epoch ∧
      ∀ q ∈ rows, q.transactionId = c.transactionId → q.epoch ≤ epoch → q.epoch ≤ m.epoch := by
  have hmem : ∀ q, q ∈ rows.filter (fun q => q.transactionId = c.transactionId ∧ q.epoch ≤ epoch) ↔
      q ∈ rows ∧ q.transactionId = c.transactionId ∧ q.epoch ≤ epoch := by
    intro q
    simp
  cases hlatest : Ordered.latest PositionCashflowRecord.epoch
      (rows.filter fun q => q.transactionId = c.transactionId ∧ q.epoch ≤ epoch) with
  | none =>
    have hcf := (hmem c).mpr ⟨hc, rfl, he⟩
    rw [Ordered.latest_eq_none.mp hlatest] at hcf
    cases hcf
  | some m =>
    obtain ⟨hm, htx, hme⟩ := (hmem m).mp (Ordered.latest_mem hlatest)
    exact ⟨m, hm, htx, hme, fun q hq hqtx hqe =>
      Ordered.le_latest hlatest ((hmem q).mpr ⟨hq, hqtx, hqe⟩)⟩

theorem mem_latestEpochCashflows : c ∈ latestEpochCashflows rows ↔
    c ∈ rows ∧ ∀ q ∈ rows, q.transactionId = c.transactionId → q.epoch ≤ c.epoch := by
  simp [latestEpochCashflows]

theorem mem_getAllCashflows_iff : c ∈ getAllCashflowsForSecurityDate rows date epoch ↔
    (c ∈ rows ∧ c.cashflowDate = date ∧ c.epoch ≤ epoch) ∧
      ∀ q ∈ rows, q.cashflowDate = date → q.epoch ≤ epoch →
        q.transactionId = c.transactionId → q.epoch ≤ c.epoch := by
  unfold getAllCashflowsForSecurityDate orderCashflows
  rw [(perm_insertionSort _ _).mem_iff, mem_latestEpochCashflows]
  simp only [mem_filter, decide_eq_true_eq, and_imp]

theorem exists_mem_getAllCashflows (hc : c ∈ rows) (he : c.epoch ≤ epoch) :
    ∃ q ∈ getAllCashflowsForSecurityDate rows c.cashflowDate epoch,
      q.transactionId = c.transactionId := by
  have hday : c ∈ rows.filter fun q => q.cashflowDate = c.cashflowDate := by simp [hc]
  obtain ⟨m, hm, htx, hme, hmax⟩ := exists_latest_epoch hday he
  obtain ⟨hmrows, hmdate⟩ := mem_filter.mp hm
  refine ⟨m, mem_getAllCashflows_iff.mpr ⟨⟨hmrows, by simpa using hmdate, hme⟩, ?_⟩, htx⟩
  intro q hq hqdate hqe hqtx
  exact hmax q (by simp [hq, hqdate]) (hqtx.trans htx) hqe

end Latest

/-! ## Agreement -/

section Agreement

variable (table : CashflowTable) (portfolioId securityId : String) (epoch : ℕ)

/-- The cashflows of the position lie on the day of the latest cashflow of their transaction. -/
def CashflowTable.Unmoved : Prop :=
  ∀ c ∈ table.slice portfolioId securityId, c.epoch ≤ epoch →
    ∀ latest, table.IsLatest epoch c.transactionId latest → c.cashflowDate = latest.cashflowDate

variable {table portfolioId securityId epoch}

theorem CashflowTable.slice_subset {c : PositionCashflowRecord}
    (h : c ∈ table.slice portfolioId securityId) : c ∈ table.rows.map CashflowRow.record := by
  obtain ⟨row, hrow, rfl⟩ := mem_map.mp h
  exact mem_map_of_mem (mem_of_mem_filter hrow)

theorem CashflowTable.Unmoved.oneDate (h : table.Unmoved portfolioId securityId epoch) :
    OneDatePerTransaction (table.slice portfolioId securityId) epoch := by
  intro c hc q hq hce hqe htx
  obtain ⟨m, hm, hmtx, hme, hmax⟩ := exists_latest_epoch (slice_subset hc) hce
  have hlatest : table.IsLatest epoch c.transactionId m := ⟨hm, hmtx, hme, hmax⟩
  have hqm : q.cashflowDate = m.cashflowDate := h q hq hqe m (htx ▸ hlatest)
  rw [hqm, h c hc hce m hlatest]

variable (table portfolioId securityId epoch) in
/-- **Reads of corrected cashflows.** The reads of a day alone and in a batch agree, and both show a
transaction only on the day of its latest cashflow, exactly when the cashflows of the position lie
on the days of the latest cashflows of their transactions. -/
theorem cashflow_reads_agree_iff :
    ((∀ dates : List ℤ, ∀ d ∈ dates,
        getCashflowsForSecurityDates (table.slice portfolioId securityId) dates epoch d =
          getAllCashflowsForSecurityDate (table.slice portfolioId securityId) d epoch) ∧
      (∀ d, ∀ c ∈ getAllCashflowsForSecurityDate (table.slice portfolioId securityId) d epoch,
        ∀ latest, table.IsLatest epoch c.transactionId latest → latest.cashflowDate = d) ∧
      (∀ dates : List ℤ, ∀ d ∈ dates,
        ∀ c ∈ getCashflowsForSecurityDates (table.slice portfolioId securityId) dates epoch d,
        ∀ latest, table.IsLatest epoch c.transactionId latest → latest.cashflowDate = d)) ↔
      table.Unmoved portfolioId securityId epoch := by
  set rows := table.slice portfolioId securityId
  constructor
  · rintro ⟨-, hsingle, -⟩ c hc hce latest hlatest
    obtain ⟨q, hq, htx⟩ := exists_mem_getAllCashflows hc hce
    exact (hsingle c.cashflowDate q hq latest (htx ▸ hlatest)).symm
  · intro h
    have hsingle : ∀ d, ∀ c ∈ getAllCashflowsForSecurityDate rows d epoch,
        ∀ latest, table.IsLatest epoch c.transactionId latest → latest.cashflowDate = d := by
      intro d c hc latest hlatest
      obtain ⟨⟨hmem, rfl, hce⟩, -⟩ := mem_getAllCashflows_iff.mp hc
      exact (h c hmem hce latest hlatest).symm
    have hbatch : ∀ dates : List ℤ, ∀ d ∈ dates, getCashflowsForSecurityDates rows dates epoch d =
        getAllCashflowsForSecurityDate rows d epoch :=
      fun dates d hd => getCashflowsForSecurityDates_eq h.oneDate hd
    refine ⟨hbatch, hsingle, ?_⟩
    intro dates d hd c hc
    rw [hbatch dates d hd] at hc
    exact hsingle d c hc

end Agreement

def movedCashflow : CashflowTable where
  rows := [⟨"portfolio", some "bond", ⟨"income", 1, 0, 50, .income, .eod, true, false, none⟩⟩,
    ⟨"portfolio", some "bond", ⟨"income", 2, 1, 50, .income, .eod, true, false, none⟩⟩]
  unique := by decide +kernel

/-- The day alone still shows the moved cashflow, the batch does not. -/
theorem cashflow_reads_differ :
    (getAllCashflowsForSecurityDate (movedCashflow.slice "portfolio" "bond") 1 1).map
        (·.transactionId) = ["income"] ∧
      (getAllCashflowsForSecurityDate (movedCashflow.slice "portfolio" "bond") 2 1).map
        (·.transactionId) = ["income"] ∧
      getCashflowsForSecurityDates (movedCashflow.slice "portfolio" "bond") [1, 2] 1 1 = [] := by
  decide +kernel

end LotusCore.DerivedState
