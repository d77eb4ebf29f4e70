import LotusCore.Data.AsOf
import LotusCore.Data.Grouping
import LotusCore.Exec.Raising
import LotusCore.Transaction.Types
import Mathlib.Data.Prod.Lex
import Mathlib.Data.Rat.Defs

/-!
# Exchange rates of cost-basis inputs

Before a history is costed, the transactions without an exchange rate get the latest rate on or
before their dates. The rates of a currency pair are read once for all transactions of the pair, as
a window from the first to the last of their dates with the last rates before it.

* `getFxRateWindow`: the read of the repository.
* `enrichCostBasisTransactionsWithFx`: the rates of a list of transactions.
* `enrichOne`: what a transaction alone becomes.
* **`enrich_eq_ok_iff`**: the list goes through exactly when each transaction does.
* **`batch_fx_enrichment_pointwise`**: the batch gives every transaction the rate it gets alone,
  which is the latest one of its pair.
* **`enrichment_rates_kept`**: a second enrichment changes nothing.
-/

namespace LotusCore.FxEnrichment

open Exec List

/-! ## The table of rates -/

/-- A row of `fx_rates`. -/
structure FxRate where
  id : ℕ
  fromCurrency : String
  toCurrency : String
  rateDate : ℤ
  rate : ℚ
  deriving Repr, DecidableEq

/-- The table with its primary key. -/
structure FxRateTable where
  rows : List FxRate
  ids : (rows.map (·.id)).Nodup

structure EffectiveFxRate where
  effectiveDate : ℤ
  rate : ℚ
  deriving Repr, DecidableEq

/-- The order of the window. -/
def FxRate.key (r : FxRate) : ℤ ×ₗ ℕ := toLex (r.rateDate, r.id)

variable (table : FxRateTable)

/-- The rows of a pair, with the currencies as the query compares them. -/
def FxRateTable.ofPair (fromCurrency toCurrency : String) : List FxRate :=
  table.rows.filter fun r =>
    upper (sqlTrim r.fromCurrency) = fromCurrency ∧ upper (sqlTrim r.toCurrency) = toCurrency

def getFxRateWindow (fromCurrency toCurrency : String) (startDate endDate : ℤ)
    : Except Raised (List EffectiveFxRate) := do
  refuseIf (endDate < startDate) "FX rate window start_date must be on or before end_date"
  let normalizedFromCurrency ← normalizeCurrencyCode fromCurrency
  let normalizedToCurrency ← normalizeCurrencyCode toCurrency
  return (AsOf.window (·.rateDate) FxRate.key
    (table.ofPair normalizedFromCurrency normalizedToCurrency) startDate endDate).map
      fun r => ⟨r.rateDate, r.rate⟩

def selectLatestEffectiveFxRate (rateWindow : List EffectiveFxRate) (effectiveDate : ℤ) :
    Option EffectiveFxRate :=
  AsOf.lastOnOrBefore (·.effectiveDate) rateWindow effectiveDate

/-! ## Enrichment -/

/-- What the enrichment reads and writes of an input of the cost-basis engine. The date is there as
the text an error shows and as the day it stands for. -/
structure CostBasisInput where
  transactionId : Option String
  transactionDate : String
  effectiveDate : ℤ
  tradeCurrency : Option String
  portfolioBaseCurrency : Option String := none
  transactionFxRate : Option ℚ := none
  transactionFxRateOrigin : Option String := none
  deriving Repr, DecidableEq

inductive FxEnrichmentError
  /-- `TransactionProcessingRejected` with its reason and detail. -/
  | rejected (reasonCode : String) (transactionId : Option String) (currency : String)
      (transactionFxRate : ℚ)
  | fxRateNotFound (message : String)
  | raised (error : Raised)
  deriving Repr, DecidableEq

def normalizedCurrency (value : Option String) : String := upper (strip (value.getD ""))

def referenceDerivedFxRateOrigin : String := "REFERENCE_DERIVED"

/-- The first loop for one transaction. The flag says that a rate has to be read. -/
def prepare (base : String) (transaction : CostBasisInput) :
    Except FxEnrichmentError (CostBasisInput × Bool) :=
  let tradeCurrency := normalizedCurrency transaction.tradeCurrency
  let prepared := { transaction with
    tradeCurrency := some tradeCurrency, portfolioBaseCurrency := some base }
  if tradeCurrency = base then
    match transaction.transactionFxRate with
    | some suppliedRate =>
      if suppliedRate ≠ 1 then
        .error (.rejected "same_currency_fx_rate_invalid" transaction.transactionId tradeCurrency
          suppliedRate)
      else .ok ({ prepared with transactionFxRate := some 1 }, false)
    | none =>
      .ok ({ prepared with
        transactionFxRate := some 1
        transactionFxRateOrigin := some referenceDerivedFxRateOrigin }, false)
  else .ok (prepared, transaction.transactionFxRate.isNone)

/-- The trade currency under which the dictionary of the pairs keeps a transaction. -/
def pairOf (p : CostBasisInput × Bool) : String := p.1.tradeCurrency.getD ""

/-- The transaction waits for a rate of the pair. -/
def waitsFor (pair : String) (p : CostBasisInput × Bool) : Bool := p.2 && pairOf p = pair

def applyRate (base pair : String) (rateWindow : List EffectiveFxRate) (p : CostBasisInput × Bool) :
    Except FxEnrichmentError (CostBasisInput × Bool) :=
  match selectLatestEffectiveFxRate rateWindow p.1.effectiveDate with
  | none =>
    .error (.fxRateNotFound ("FX rate for " ++ pair ++ "->" ++ base ++ " on "
      ++ p.1.transactionDate ++ " not found. Retrying..."))
  | some effectiveRate =>
    .ok ({ p.1 with
      transactionFxRate := some effectiveRate.rate
      transactionFxRateOrigin := some referenceDerivedFxRateOrigin }, p.2)

def enrichPair (base : String) (prepared : List (CostBasisInput × Bool)) (pair : String)
    : Except FxEnrichmentError (List (CostBasisInput × Bool)) := do
  let requestedDates := (prepared.filter (waitsFor pair)).map (·.1.effectiveDate)
  let rateWindow ← (getFxRateWindow table pair base (requestedDates.min?.getD 0)
    (requestedDates.max?.getD 0)).mapError .raised
  prepared.mapM fun p => if waitsFor pair p then applyRate base pair rateWindow p else .ok p

def enrichCostBasisTransactionsWithFx (portfolioBaseCurrency : String)
    (transactions : List CostBasisInput) : Except FxEnrichmentError (List CostBasisInput) := do
  let base := normalizedCurrency (some portfolioBaseCurrency)
  let prepared ← transactions.mapM (prepare base)
  let pairs := Grouping.keys pairOf (prepared.filter (·.2))
  let enriched ← pairs.foldlM (enrichPair table base) prepared
  return enriched.map Prod.fst

/-! ## Windows -/

section Window

variable {table : FxRateTable} {fromCurrency toCurrency : String} {startDate endDate date : ℤ}
  {rateWindow : List EffectiveFxRate}

/-- A window is refused for its currencies only, whatever its dates. -/
theorem getFxRateWindow_eq_ok (h : startDate ≤ endDate) :
    getFxRateWindow table fromCurrency toCurrency startDate endDate = .ok rateWindow ↔
      ∃ f t, normalizeCurrencyCode fromCurrency = .ok f ∧ normalizeCurrencyCode toCurrency = .ok t ∧
        (AsOf.window (·.rateDate) FxRate.key (table.ofPair f t) startDate endDate).map
          (fun r => ⟨r.rateDate, r.rate⟩) = rateWindow := by
  rw [getFxRateWindow, except_seq_eq_ok, refuseIf_eq_ok, except_bind_eq_ok]
  simp only [except_bind_eq_ok, not_lt, h, true_and]
  constructor
  · rintro ⟨f, hf, t, ht, hrows⟩
    exact ⟨f, t, hf, ht, Except.ok.inj hrows⟩
  · rintro ⟨f, t, hf, ht, rfl⟩
    exact ⟨f, hf, t, ht, rfl⟩

theorem key_lt_of_date_lt (a b : FxRate) (h : a.rateDate < b.rateDate) : a.key < b.key :=
  Prod.Lex.lt_iff.mpr (.inl h)

theorem eq_of_key_eq (table : FxRateTable) (f t : String) : ∀ a ∈ table.ofPair f t,
    ∀ b ∈ table.ofPair f t, a.key = b.key → a = b := by
  intro a ha b hb hkey
  have hid : a.id = b.id := congrArg Prod.snd (toLex_inj.mp hkey)
  exact inj_on_of_nodup_map table.ids (mem_filter.mp ha).1 (mem_filter.mp hb).1 hid

/-- For a date inside, a window selects what the window of the date alone selects. -/
theorem select_getFxRateWindow {own : List EffectiveFxRate} (hstart : startDate ≤ date)
    (hend : date ≤ endDate)
    (h : getFxRateWindow table fromCurrency toCurrency startDate endDate = .ok rateWindow)
    (hown : getFxRateWindow table fromCurrency toCurrency date date = .ok own) :
    selectLatestEffectiveFxRate rateWindow date = selectLatestEffectiveFxRate own date := by
  obtain ⟨f, t, hf, ht, rfl⟩ := (getFxRateWindow_eq_ok (hstart.trans hend)).mp h
  obtain ⟨f', t', hf', ht', rfl⟩ := (getFxRateWindow_eq_ok le_rfl).mp hown
  cases hf.symm.trans hf'
  cases ht.symm.trans ht'
  rw [selectLatestEffectiveFxRate, selectLatestEffectiveFxRate, AsOf.lastOnOrBefore_map,
    AsOf.lastOnOrBefore_map,
    AsOf.lastOnOrBefore_window_eq key_lt_of_date_lt (eq_of_key_eq table f t) hstart hend]

theorem exists_getFxRateWindow {startDate' endDate' : ℤ} (h : startDate ≤ endDate)
    (h' : startDate' ≤ endDate')
    (hok : getFxRateWindow table fromCurrency toCurrency startDate endDate = .ok rateWindow) :
    ∃ w, getFxRateWindow table fromCurrency toCurrency startDate' endDate' = .ok w := by
  obtain ⟨f, t, hf, ht, -⟩ := (getFxRateWindow_eq_ok h).mp hok
  exact ⟨_, (getFxRateWindow_eq_ok h').mpr ⟨f, t, hf, ht, rfl⟩⟩

end Window

/-! ## One transaction alone -/

section Alone

variable (table : FxRateTable) (base : String)

/-- A waiting transaction with the window of its own date. -/
def ownRate (p : CostBasisInput × Bool) : Except FxEnrichmentError (CostBasisInput × Bool) := do
  let rateWindow ← (getFxRateWindow table (pairOf p) base p.1.effectiveDate
    p.1.effectiveDate).mapError .raised
  applyRate base (pairOf p) rateWindow p

/-- The second loop for one transaction, when it has gone through some of the pairs. -/
def settle (pairs : List String) (p : CostBasisInput × Bool) :
    Except FxEnrichmentError (CostBasisInput × Bool) :=
  if p.2 ∧ pairOf p ∈ pairs then ownRate table base p else .ok p

/-- The second loop for one transaction. -/
def settleOwn (p : CostBasisInput × Bool) : Except FxEnrichmentError (CostBasisInput × Bool) :=
  if p.2 then ownRate table base p else .ok p

def enrichOne (transaction : CostBasisInput) : Except FxEnrichmentError CostBasisInput := do
  let p ← prepare base transaction
  let q ← settleOwn table base p
  return q.1

variable {table base} {p q : CostBasisInput × Bool} {pair : String} {pairs : List String}
  {rateWindow : List EffectiveFxRate}

theorem mapError_eq_ok {α ε ε' : Type} {f : ε → ε'} {x : Except ε α} {a : α} :
    x.mapError f = .ok a ↔ x = .ok a := by
  cases x with
  | error e => simp [Except.mapError]
  | ok b => simp [Except.mapError]

theorem applyRate_eq_ok (h : applyRate base pair rateWindow p = .ok q) :
    ∃ r, selectLatestEffectiveFxRate rateWindow p.1.effectiveDate = some r ∧
      q = ({ p.1 with
        transactionFxRate := some r.rate
        transactionFxRateOrigin := some referenceDerivedFxRateOrigin }, p.2) := by
  unfold applyRate at h
  split at h
  · cases h
  · rename_i r hr
    exact ⟨r, hr, (Except.ok.inj h).symm⟩

theorem ownRate_frame (h : ownRate table base p = .ok q) : q.2 = p.2 ∧ pairOf q = pairOf p := by
  obtain ⟨w, -, happly⟩ := except_bind_eq_ok.mp h
  obtain ⟨r, -, rfl⟩ := applyRate_eq_ok happly
  exact ⟨rfl, rfl⟩

theorem settle_frame (h : settle table base pairs p = .ok q) : q.2 = p.2 ∧ pairOf q = pairOf p := by
  unfold settle at h
  split at h
  · exact ownRate_frame h
  · cases h
    exact ⟨rfl, rfl⟩

theorem settle_cons (hpair : pair ∉ pairs) (p : CostBasisInput × Bool) :
    (settle table base [pair] p >>= settle table base pairs) =
      settle table base (pair :: pairs) p := by
  by_cases hwaits : p.2 ∧ pairOf p = pair
  · have hone : settle table base [pair] p = ownRate table base p :=
      if_pos ⟨hwaits.1, by simp [hwaits.2]⟩
    have hboth : settle table base (pair :: pairs) p = ownRate table base p :=
      if_pos ⟨hwaits.1, by simp [hwaits.2]⟩
    rw [hone, hboth]
    cases hown : ownRate table base p with
    | error e => rfl
    | ok q =>
      have hq := (ownRate_frame hown).2.trans hwaits.2
      exact if_neg fun h => hpair (hq ▸ h.2)
  · have hone : settle table base [pair] p = .ok p :=
      if_neg fun h => hwaits ⟨h.1, mem_singleton.mp h.2⟩
    rw [hone]
    have hiff : (p.2 ∧ pairOf p ∈ pair :: pairs) ↔ (p.2 ∧ pairOf p ∈ pairs) := by
      rw [mem_cons]
      exact ⟨fun h => ⟨h.1, h.2.resolve_left fun heq => hwaits ⟨h.1, heq⟩⟩,
        fun h => ⟨h.1, .inr h.2⟩⟩
    show settle table base pairs p = _
    simp only [settle, hiff]

end Alone

/-! ## The batch -/

section Batch

variable {table : FxRateTable} {base : String} {p q : CostBasisInput × Bool} {pair : String}
  {pairs : List String} {prepared settled : List (CostBasisInput × Bool)}

/-- The dates of the waiting transactions lie between the first and the last of them. -/
theorem requestedDates_bounds {dates : List ℤ} {d : ℤ} (hd : d ∈ dates) :
    dates.min?.getD 0 ≤ d ∧ d ≤ dates.max?.getD 0 := by
  cases hmin : dates.min? with
  | none =>
    rw [List.min?_eq_none_iff.mp hmin] at hd
    cases hd
  | some lo =>
    cases hmax : dates.max? with
    | none =>
      rw [List.max?_eq_none_iff.mp hmax] at hd
      cases hd
    | some hi =>
      exact ⟨(List.min?_eq_some_iff.mp hmin).2 d hd, (List.max?_eq_some_iff.mp hmax).2 d hd⟩

theorem applyRate_eq_ownRate {startDate endDate : ℤ} {rateWindow : List EffectiveFxRate}
    (hstart : startDate ≤ p.1.effectiveDate) (hend : p.1.effectiveDate ≤ endDate)
    (h : getFxRateWindow table (pairOf p) base startDate endDate = .ok rateWindow) :
    applyRate base (pairOf p) rateWindow p = ownRate table base p := by
  obtain ⟨own, hown⟩ := exists_getFxRateWindow (hstart.trans hend) le_rfl h
  have hselect := select_getFxRateWindow hstart hend h hown
  rw [ownRate, hown]
  show _ = applyRate base (pairOf p) own p
  simp only [applyRate, hselect]

/-- **One pair.** The loop over a pair settles the transactions that wait for it, each with the
window of its own date. -/
theorem enrichPair_eq_ok (hwaits : ∃ p ∈ prepared, waitsFor pair p) :
    enrichPair table base prepared pair = .ok settled ↔
      prepared.mapM (settle table base [pair]) = .ok settled := by
  have hwaiting : ∀ p, waitsFor pair p ↔ p.2 = true ∧ pairOf p = pair := fun p => by
    simp [waitsFor]
  have hbounds : ∀ p ∈ prepared, waitsFor pair p → _ := fun p hp hw =>
    requestedDates_bounds (mem_map_of_mem (f := fun p : CostBasisInput × Bool => p.1.effectiveDate)
      (mem_filter.mpr ⟨hp, hw⟩))
  rw [enrichPair, except_bind_eq_ok]
  constructor
  · rintro ⟨w, hw, hmap⟩
    rw [← hmap]
    refine except_mapM_congr fun p hp => ?_
    by_cases hpw : waitsFor pair p
    · obtain ⟨hflag, rfl⟩ := (hwaiting p).mp hpw
      obtain ⟨hlo, hhi⟩ := hbounds p hp hpw
      rw [if_pos hpw, settle, if_pos ⟨hflag, mem_singleton_self _⟩,
        applyRate_eq_ownRate hlo hhi (mapError_eq_ok.mp hw)]
    · rw [if_neg hpw, settle, if_neg fun h => hpw ((hwaiting p).mpr ⟨h.1, mem_singleton.mp h.2⟩)]
  · intro hmap
    -- a transaction that waits shows that the window is not refused
    obtain ⟨p, hp, hpw⟩ := hwaits
    obtain ⟨hflag, rfl⟩ := (hwaiting p).mp hpw
    obtain ⟨q, hq⟩ := except_mapM_exists_ok.mp ⟨settled, hmap⟩ p hp
    rw [settle, if_pos ⟨hflag, mem_singleton_self _⟩] at hq
    obtain ⟨own, hown, -⟩ := except_bind_eq_ok.mp hq
    obtain ⟨hlo, hhi⟩ := hbounds p hp hpw
    obtain ⟨w, hw⟩ := exists_getFxRateWindow le_rfl (hlo.trans hhi) (mapError_eq_ok.mp hown)
    refine ⟨w, mapError_eq_ok.mpr hw, ?_⟩
    rw [← hmap]
    refine except_mapM_congr fun p' hp' => ?_
    by_cases hpw' : waitsFor (pairOf p) p'
    · obtain ⟨hflag', hpair'⟩ := (hwaiting p').mp hpw'
      obtain ⟨hlo', hhi'⟩ := hbounds p' hp' hpw'
      rw [if_pos hpw', settle, if_pos ⟨hflag', by simp [hpair']⟩, ← hpair']
      exact applyRate_eq_ownRate hlo' hhi' (hpair'.symm ▸ hw)
    · rw [if_neg hpw', settle,
        if_neg fun h => hpw' ((hwaiting p').mpr ⟨h.1, mem_singleton.mp h.2⟩)]

/-- **All pairs.** -/
theorem foldlM_enrichPair_eq_ok (hnodup : pairs.Nodup)
    (hwaits : ∀ pair ∈ pairs, ∃ p ∈ prepared, waitsFor pair p) :
    pairs.foldlM (enrichPair table base) prepared = .ok settled ↔
      prepared.mapM (settle table base pairs) = .ok settled := by
  induction pairs generalizing prepared with
  | nil =>
    have hkept : prepared.mapM (settle table base []) = .ok (prepared.map id) :=
      except_mapM_eq_map fun p _ => if_neg fun h => not_mem_nil h.2
    rw [foldlM_nil, hkept, map_id]
    rfl
  | cons pair pairs ih =>
    obtain ⟨hpair, hnodup⟩ := nodup_cons.mp hnodup
    have hrest : ∀ next, prepared.mapM (settle table base [pair]) = .ok next →
        ∀ j ∈ pairs, ∃ p ∈ next, waitsFor j p := by
      intro next hnext j hj
      obtain ⟨p, hp, hpw⟩ := hwaits j (mem_cons_of_mem _ hj)
      obtain ⟨q, hq, hpq⟩ := except_mapM_exists_mem hnext hp
      obtain ⟨hflag, hpairOf⟩ := settle_frame hpq
      refine ⟨q, hq, ?_⟩
      rw [waitsFor, hflag, hpairOf]
      exact hpw
    rw [foldlM_cons, except_bind_eq_ok]
    have hstep : (∃ next, enrichPair table base prepared pair = .ok next ∧
        pairs.foldlM (enrichPair table base) next = .ok settled) ↔
        ∃ next, prepared.mapM (settle table base [pair]) = .ok next ∧
          next.mapM (settle table base pairs) = .ok settled := by
      refine exists_congr fun next => ?_
      rw [enrichPair_eq_ok (hwaits pair mem_cons_self)]
      exact and_congr_right fun hnext => ih hnodup (hrest next hnext)
    rw [hstep, except_mapM_comp, except_mapM_congr fun p _ => settle_cons hpair p]

/-- The pairs of the dictionary are those of the waiting transactions. -/
theorem foldlM_keys_eq_ok :
    (Grouping.keys pairOf (prepared.filter (·.2))).foldlM (enrichPair table base) prepared =
        .ok settled ↔ prepared.mapM (settleOwn table base) = .ok settled := by
  rw [foldlM_enrichPair_eq_ok (Grouping.nodup_keys _)]
  · have hsettle : prepared.mapM
        (settle table base (Grouping.keys pairOf (prepared.filter (·.2)))) =
        prepared.mapM (settleOwn table base) := by
      refine except_mapM_congr fun p hp => ?_
      by_cases hflag : p.2
      · rw [settleOwn, if_pos hflag, settle, if_pos ⟨hflag, Grouping.mem_keys.mpr
          ⟨p, mem_filter.mpr ⟨hp, hflag⟩, rfl⟩⟩]
      · rw [settleOwn, if_neg hflag, settle, if_neg fun h => hflag h.1]
    rw [hsettle]
  · intro pair hpair
    obtain ⟨p, hp, rfl⟩ := Grouping.mem_keys.mp hpair
    obtain ⟨hp, hflag⟩ := mem_filter.mp hp
    exact ⟨p, hp, by simp [waitsFor, hflag]⟩

/-- **The batch and its transactions.** A list of transactions is enriched exactly when each of them
is, and to the same. -/
theorem enrich_eq_ok_iff {baseCurrency : String} {transactions result : List CostBasisInput} :
    enrichCostBasisTransactionsWithFx table baseCurrency transactions = .ok result ↔
      transactions.mapM (enrichOne table (normalizedCurrency (some baseCurrency))) =
        .ok result := by
  have hone : (fun t => (prepare (normalizedCurrency (some baseCurrency)) t >>=
      settleOwn table (normalizedCurrency (some baseCurrency))) >>= fun q => pure q.1) =
      enrichOne table (normalizedCurrency (some baseCurrency)) := by
    funext t
    rw [enrichOne, bind_assoc]
  have hfst : ∀ settled : List (CostBasisInput × Bool),
      settled.mapM (fun q => (pure q.1 : Except FxEnrichmentError CostBasisInput)) =
        .ok (settled.map Prod.fst) := fun settled => except_mapM_eq_map fun _ _ => rfl
  rw [enrichCostBasisTransactionsWithFx, except_bind_eq_ok, ← hone]
  simp only [except_bind_eq_ok, foldlM_keys_eq_ok]
  constructor
  · rintro ⟨prepared, hprepared, settled, hsettled, hresult⟩
    refine except_mapM_comp.mp ⟨settled, except_mapM_comp.mp ⟨prepared, hprepared, hsettled⟩, ?_⟩
    exact (hfst settled).trans hresult
  · intro h
    obtain ⟨settled, hsettled, hresult⟩ := except_mapM_comp.mpr h
    obtain ⟨prepared, hprepared, hsettled⟩ := except_mapM_comp.mpr hsettled
    exact ⟨prepared, hprepared, settled, hsettled, (hfst settled).symm.trans hresult⟩

/-! ## The rate of a transaction -/

/-- The row of a pair to read as of a date: no row of the pair on or before the date is later, and
none of the same day has a higher id. -/
def LatestRow (table : FxRateTable) (fromCurrency toCurrency : String) (date : ℤ) (row : FxRate) :
    Prop :=
  row ∈ table.ofPair fromCurrency toCurrency ∧ row.rateDate ≤ date ∧
    ∀ other ∈ table.ofPair fromCurrency toCurrency, other.rateDate ≤ date →
      other.rateDate < row.rateDate ∨ other.rateDate = row.rateDate ∧ other.id ≤ row.id

theorem code_of_normal {currency code : String} (hnormal : upper (strip currency) = currency)
    (h : normalizeCurrencyCode currency = .ok code) : code = currency := by
  simp only [normalizeCurrencyCode, hnormal] at h
  split at h
  · exact (Except.ok.inj h).symm
  · cases h

theorem normalizedCurrency_normal (value : Option String) :
    upper (strip (normalizedCurrency value)) = normalizedCurrency value :=
  upper_strip_upper_strip _

theorem ownRate_eq_ok (hpair : upper (strip (pairOf p)) = pairOf p)
    (hbase : upper (strip base) = base) (h : ownRate table base p = .ok q) :
    ∃ row, LatestRow table (pairOf p) base p.1.effectiveDate row ∧
      q.1.transactionFxRate = some row.rate := by
  obtain ⟨w, hw, happly⟩ := except_bind_eq_ok.mp h
  obtain ⟨f, t, hf, ht, rfl⟩ := (getFxRateWindow_eq_ok le_rfl).mp (mapError_eq_ok.mp hw)
  obtain rfl := code_of_normal hpair hf
  obtain rfl := code_of_normal hbase ht
  obtain ⟨r, hr, rfl⟩ := applyRate_eq_ok happly
  rw [selectLatestEffectiveFxRate, AsOf.lastOnOrBefore_map, Option.map_eq_some_iff] at hr
  obtain ⟨row, hrow, rfl⟩ := hr
  obtain ⟨hmem, hdate, hlatest⟩ := AsOf.isLatestOn_of_window key_lt_of_date_lt le_rfl le_rfl hrow
  refine ⟨row, ⟨hmem, hdate, fun other hother hle => ?_⟩, rfl⟩
  exact Prod.Lex.le_iff.mp (hlatest other hother hle)

/-- The rate of a transaction of a portfolio with a normalized base currency: one between equal
currencies, the one supplied, or the one of the latest row of its pair. -/
structure HasRate (table : FxRateTable) (base : String) (t : CostBasisInput) (rate : Option ℚ) :
    Prop where
  same : normalizedCurrency t.tradeCurrency = base → rate = some 1
  supplied : normalizedCurrency t.tradeCurrency ≠ base → ∀ suppliedRate,
    t.transactionFxRate = some suppliedRate → rate = some suppliedRate
  latest : normalizedCurrency t.tradeCurrency ≠ base → t.transactionFxRate = none →
    ∃ row, LatestRow table (normalizedCurrency t.tradeCurrency) base t.effectiveDate row ∧
      rate = some row.rate

theorem hasRate_of_enrichOne {t t' : CostBasisInput} (hbase : upper (strip base) = base)
    (h : enrichOne table base t = .ok t') : HasRate table base t t'.transactionFxRate := by
  obtain ⟨p, hp, h⟩ := except_bind_eq_ok.mp h
  obtain ⟨q, hq, h⟩ := except_bind_eq_ok.mp h
  cases h
  simp only [prepare] at hp
  by_cases hsame : normalizedCurrency t.tradeCurrency = base
  · refine ⟨fun _ => ?_, fun h => absurd hsame h, fun h => absurd hsame h⟩
    rw [if_pos hsame] at hp
    cases hrate : t.transactionFxRate with
    | some suppliedRate =>
      rw [hrate] at hp
      by_cases hone : suppliedRate ≠ 1
      · simp only [if_pos hone] at hp
        cases hp
      · simp only [if_neg hone] at hp
        cases hp
        cases hq
        rfl
    | none =>
      rw [hrate] at hp
      cases hp
      cases hq
      rfl
  · rw [if_neg hsame] at hp
    have hinput := Except.ok.inj hp
    have hpair : pairOf p = normalizedCurrency t.tradeCurrency := by
      rw [← hinput, pairOf, Option.getD]
    have hdate : p.1.effectiveDate = t.effectiveDate := by rw [← hinput]
    refine ⟨fun h => absurd h hsame, fun _ suppliedRate hrate => ?_, fun _ hrate => ?_⟩
    · rw [← hinput, settleOwn, if_neg (by simp [hrate])] at hq
      cases hq
      exact hrate
    · rw [settleOwn, if_pos (by rw [← hinput]; simp [hrate])] at hq
      have hrow := ownRate_eq_ok (hpair ▸ normalizedCurrency_normal t.tradeCurrency) hbase hq
      rwa [hpair, hdate] at hrow

end Batch

/-- **Batch enrichment is individual enrichment.** For every table of rates and every list of
transactions, the batch succeeds exactly when it succeeds on each transaction alone. Then every
transaction becomes what it becomes alone, and has the rate of the latest row of its pair on or
before its date, the one with the highest id of that day, where it comes without a rate and in
another currency. -/
theorem batch_fx_enrichment_pointwise (baseCurrency : String) (transactions : List CostBasisInput) :
    ((∃ result, enrichCostBasisTransactionsWithFx table baseCurrency transactions = .ok result) ↔
      ∀ t ∈ transactions,
        ∃ result, enrichCostBasisTransactionsWithFx table baseCurrency [t] = .ok result) ∧
    ∀ result, enrichCostBasisTransactionsWithFx table baseCurrency transactions = .ok result →
      List.Forall₂ (fun t t' =>
        enrichCostBasisTransactionsWithFx table baseCurrency [t] = .ok [t'] ∧
          HasRate table (normalizedCurrency (some baseCurrency)) t t'.transactionFxRate)
        transactions result := by
  have hsingle : ∀ t t', enrichOne table (normalizedCurrency (some baseCurrency)) t = .ok t' →
      enrichCostBasisTransactionsWithFx table baseCurrency [t] = .ok [t'] := fun t t' ht =>
    enrich_eq_ok_iff.mpr (except_mapM_eq_ok.mpr (.cons ht .nil))
  constructor
  · simp only [enrich_eq_ok_iff, except_mapM_exists_ok, forall_mem_singleton]
  · intro result h
    refine (except_mapM_eq_ok.mp (enrich_eq_ok_iff.mp h)).imp fun t t' ht => ?_
    exact ⟨hsingle t t' ht, hasRate_of_enrichOne (normalizedCurrency_normal _) ht⟩

/-- Rates of two days, the second with two rows. -/
def sampleRates : FxRateTable where
  rows := [⟨3, "EUR", "USD", 10, 13 / 10⟩, ⟨1, "EUR", "USD", 5, 11 / 10⟩,
    ⟨2, "eur ", "USD", 10, 12 / 10⟩]
  ids := by decide

/-- Two transactions that wait for a rate and one in the base currency. -/
def sampleInputs : List CostBasisInput :=
  [⟨some "t-1", "2025-01-12", 12, some "eur", none, none, none⟩,
   ⟨some "t-2", "2025-01-07", 7, some "EUR", none, none, none⟩,
   ⟨some "t-3", "2025-01-01", 1, some "USD", none, none, none⟩]

theorem batch_fx_enrichment_pointwise_sample :
    ∃ result, enrichCostBasisTransactionsWithFx sampleRates "usd" sampleInputs = .ok result ∧
      result.map (·.transactionFxRate) = [some (13 / 10), some (11 / 10), some 1] ∧
      List.Forall₂ (fun t t' => enrichCostBasisTransactionsWithFx sampleRates "usd" [t] = .ok [t'] ∧
        HasRate sampleRates (normalizedCurrency (some "usd")) t t'.transactionFxRate)
        sampleInputs result := by
  have hall : ∀ t ∈ sampleInputs,
      ∃ result, enrichCostBasisTransactionsWithFx sampleRates "usd" [t] = .ok result := by
    have hok : ∀ t ∈ sampleInputs,
        (enrichCostBasisTransactionsWithFx sampleRates "usd" [t]).isOk := by decide +kernel
    intro t ht
    cases h : enrichCostBasisTransactionsWithFx sampleRates "usd" [t] with
    | error e => exact absurd (hok t ht) (by simp [h, Except.isOk, Except.toBool])
    | ok result => exact ⟨result, rfl⟩
  obtain ⟨result, hresult⟩ :=
    (batch_fx_enrichment_pointwise sampleRates "usd" sampleInputs).1.mpr hall
  refine ⟨result, hresult, ?_,
    (batch_fx_enrichment_pointwise sampleRates "usd" sampleInputs).2 result hresult⟩
  have hrates : (enrichCostBasisTransactionsWithFx sampleRates "usd" sampleInputs).map
      (List.map (·.transactionFxRate)) = .ok [some (13 / 10), some (11 / 10), some 1] := by
    decide +kernel
  rw [hresult] at hrates
  exact Except.ok.inj hrates

/-! ## Enriching again -/

section Kept

variable {table : FxRateTable} {base : String} {t t' : CostBasisInput}

/-- The transaction has its currencies and a rate, which is one between equal currencies. -/
structure Rated (base : String) (t : CostBasisInput) : Prop where
  trade : t.tradeCurrency = some (normalizedCurrency t.tradeCurrency)
  base_eq : t.portfolioBaseCurrency = some base
  rate : t.transactionFxRate.isSome
  same : normalizedCurrency t.tradeCurrency = base → t.transactionFxRate = some 1

theorem rated_of_enrichOne (hbase : upper (strip base) = base)
    (h : enrichOne table base t = .ok t') : Rated base t' := by
  have hrate := hasRate_of_enrichOne hbase h
  have hnormal : normalizedCurrency (some (normalizedCurrency t.tradeCurrency)) =
      normalizedCurrency t.tradeCurrency := normalizedCurrency_normal _
  have hfields : t'.tradeCurrency = some (normalizedCurrency t.tradeCurrency) ∧
      t'.portfolioBaseCurrency = some base := by
    obtain ⟨p, hp, h⟩ := except_bind_eq_ok.mp h
    obtain ⟨q, hq, h⟩ := except_bind_eq_ok.mp h
    cases h
    have hprepared : p.1.tradeCurrency = some (normalizedCurrency t.tradeCurrency) ∧
        p.1.portfolioBaseCurrency = some base := by
      simp only [prepare] at hp
      split_ifs at hp
      · split at hp
        · split_ifs at hp
          cases hp
          exact ⟨rfl, rfl⟩
        · cases hp
          exact ⟨rfl, rfl⟩
      · cases hp
        exact ⟨rfl, rfl⟩
    unfold settleOwn at hq
    split_ifs at hq
    · obtain ⟨_, -, happly⟩ := except_bind_eq_ok.mp hq
      obtain ⟨r, -, rfl⟩ := applyRate_eq_ok happly
      exact hprepared
    · cases hq
      exact hprepared
  refine ⟨by rw [hfields.1, hnormal], hfields.2, ?_, fun hsame => ?_⟩
  · by_cases hsame : normalizedCurrency t.tradeCurrency = base
    · simp [hrate.same hsame]
    · cases hsupplied : t.transactionFxRate with
      | some rate => simp [hrate.supplied hsame rate hsupplied]
      | none =>
        obtain ⟨row, -, hrow⟩ := hrate.latest hsame hsupplied
        simp [hrow]
  · rw [hfields.1, hnormal] at hsame
    exact hrate.same hsame

theorem Rated.enrichOne_eq (h : Rated base t) : enrichOne table base t = .ok t := by
  obtain ⟨rate, hrate⟩ := Option.isSome_iff_exists.mp h.rate
  have hfields : { t with
      tradeCurrency := some (normalizedCurrency t.tradeCurrency)
      portfolioBaseCurrency := some base } = t := by
    rw [← h.trade, ← h.base_eq]
  have hprepare : prepare base t = .ok (t, false) := by
    simp only [prepare, hrate, Option.isNone_some]
    split_ifs with hsame hone
    · rw [h.same hsame, Option.some.injEq] at hrate
      exact absurd hrate.symm hone
    · rw [← h.same hsame, hfields]
    · rw [← hrate, hfields]
  unfold enrichOne
  rw [hprepare]
  rfl

/-- **Rates are kept.** What has been enriched once is not changed by enriching it again, whatever
rates have been stored or corrected since. -/
theorem enrichment_rates_kept (table' : FxRateTable) {baseCurrency : String}
    {transactions result : List CostBasisInput}
    (h : enrichCostBasisTransactionsWithFx table baseCurrency transactions = .ok result) :
    enrichCostBasisTransactionsWithFx table' baseCurrency result = .ok result := by
  rw [enrich_eq_ok_iff, except_mapM_eq_ok] at h ⊢
  induction h with
  | nil => exact .nil
  | cons ht _ ih =>
    exact .cons (rated_of_enrichOne (normalizedCurrency_normal _) ht).enrichOne_eq ih

theorem enrichment_rates_kept_sample :
    ∃ result, enrichCostBasisTransactionsWithFx sampleRates "usd" sampleInputs = .ok result ∧
      enrichCostBasisTransactionsWithFx ⟨[], by decide⟩ "usd" result = .ok result := by
  have hok : (enrichCostBasisTransactionsWithFx sampleRates "usd" sampleInputs).isOk := by
    decide +kernel
  cases h : enrichCostBasisTransactionsWithFx sampleRates "usd" sampleInputs with
  | error e => exact absurd hok (by simp [h, Except.isOk, Except.toBool])
  | ok result => exact ⟨result, rfl, enrichment_rates_kept _ h⟩

end Kept

end LotusCore.FxEnrichment
