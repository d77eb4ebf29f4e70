import LotusCore.CostBasis.Booking

/-!
# Accepted calculations

What a timeline does with a transaction it accepts. An accepted transaction went through every
check, its strategy completed without reporting, and a timeline keeps every error it has recorded.

* `CalculationState.Clean`: no error is recorded for the transaction.
* `Accepts`, `Checks`: computations that return and leave the state clean, with one rule for each
  step.
* **`accepts_calculateTransactionCosts`**: acceptance of a calculation, reduced to its strategy.
* `calculateTransaction_eq_true_iff_accepts`: a timeline accepts exactly the accepted calculations.
* `processSortedTimeline_append`, `processSortedTimeline_keeps_errors`: timelines in parts.
-/

namespace LotusCore

open Exec

/-- No error is recorded for the transaction. -/
def CalculationState.Clean (s : CalculationState) : Prop :=
  s.errors.hasErrorsFor s.transaction.transactionId = false

/-! ## Steps of a calculation -/

section Steps

variable {α β : Type} {s s' : CalculationState} {b : β} {a : α}

@[simp] theorem bind_current_eq_ok {f : CostBasisTransaction → Calc β} :
    (current >>= f) s = .ok b s' ↔ f s.transaction s = .ok b s' := Iff.rfl

@[simp] theorem bind_update_eq_ok {g : CostBasisTransaction → CostBasisTransaction}
    {f : Unit → Calc β} :
    (update g >>= f) s = .ok b s' ↔
      f () { s with transaction := g s.transaction } = .ok b s' := Iff.rfl

theorem withEngine_eq_ok {m : EStateM Raised LotDispositionEngine α} :
    withEngine m s = .ok a s' ↔ ∃ e, m s.engine = .ok a e ∧ s' = { s with engine := e } := by
  unfold withEngine
  exact zoom_eq_ok

theorem bind_withEngine_eq_ok {m : EStateM Raised LotDispositionEngine α} {f : α → Calc β} :
    (withEngine m >>= f) s = .ok b s' ↔
      ∃ a e, m s.engine = .ok a e ∧ f a { s with engine := e } = .ok b s' := by
  rw [bind_eq_ok]
  simp only [withEngine_eq_ok]
  constructor
  · rintro ⟨a, s₁, ⟨e, he, rfl⟩, h⟩
    exact ⟨a, e, he, h⟩
  · rintro ⟨a, e, he, h⟩
    exact ⟨a, _, ⟨e, he, rfl⟩, h⟩

theorem not_clean_of_report {r : String} {u : Unit} (h : report r s = .ok u s') :
    ¬ s'.Clean := by
  obtain rfl := modify_eq_ok.mp h
  simp [CalculationState.Clean, ErrorCollector.hasErrorsFor_add]

end Steps

/-- The computation returns and no error is recorded for the transaction. -/
def Accepts (m : Calc Unit) (s s' : CalculationState) : Prop := m s = .ok () s' ∧ s'.Clean

section Accepts

variable {α : Type} {s s' : CalculationState} {f : α → Calc Unit}

theorem accepts_report {reason : String} : Accepts (report reason) s s' ↔ False :=
  ⟨fun h => not_clean_of_report h.1 h.2, False.elim⟩

theorem accepts_current_bind {f : CostBasisTransaction → Calc Unit} :
    Accepts (current >>= f) s s' ↔ Accepts (f s.transaction) s s' := Iff.rfl

theorem accepts_update_bind {g : CostBasisTransaction → CostBasisTransaction}
    {f : Unit → Calc Unit} :
    Accepts (update g >>= f) s s' ↔ Accepts (f ()) { s with transaction := g s.transaction } s' :=
  Iff.rfl

theorem accepts_withEngine_bind {m : EStateM Raised LotDispositionEngine α} :
    Accepts (withEngine m >>= f) s s' ↔
      ∃ a e, m s.engine = .ok a e ∧ Accepts (f a) { s with engine := e } s' := by
  unfold Accepts
  rw [bind_withEngine_eq_ok]
  constructor
  · rintro ⟨⟨a, e, hm, h⟩, hc⟩; exact ⟨a, e, hm, h, hc⟩
  · rintro ⟨a, e, hm, h, hc⟩; exact ⟨⟨a, e, hm, h⟩, hc⟩

theorem accepts_ite {p : Prop} [Decidable p] {x y : Calc Unit} :
    Accepts (if p then x else y) s s' ↔ (p ∧ Accepts x s s') ∨ (¬ p ∧ Accepts y s s') := by
  by_cases h : p <;> simp [h]

/-- A check that passes without a write when `P` holds, and reports otherwise. -/
structure Checks (m : Calc Bool) (P : CalculationState → Prop) : Prop where
  passes : ∀ {s}, P s → m s = .ok true s
  reports : ∀ {s}, ¬ P s → ∃ reason, m s =
    .ok false { s with errors := s.errors.add s.transaction.transactionId reason }

theorem checks_true : Checks (pure true) fun _ => True :=
  ⟨fun _ => rfl, fun h => absurd trivial h⟩

theorem checks_report {reason : String} :
    Checks (report reason >>= fun _ => pure false) fun _ => False :=
  ⟨fun h => h.elim, fun _ => ⟨reason, rfl⟩⟩

theorem Checks.current {f : CostBasisTransaction → Calc Bool}
    {P : CostBasisTransaction → CalculationState → Prop} (h : ∀ t, Checks (f t) (P t)) :
    Checks (LotusCore.current >>= f) fun s => P s.transaction s :=
  ⟨fun hp => (h _).passes hp, fun hp => (h _).reports hp⟩

theorem Checks.congr {m : Calc Bool} {P Q : CalculationState → Prop} (h : Checks m P)
    (hpq : ∀ s, P s ↔ Q s) : Checks m Q :=
  ⟨fun hq => h.passes ((hpq _).mpr hq), fun hq => h.reports fun hp => hq ((hpq _).mp hp)⟩

theorem Checks.accepts_ite {m : Calc Bool} {P : CalculationState → Prop} (h : Checks m P)
    {k : Calc Unit} :
    Accepts (m >>= fun ok => if ok = true then k else pure ()) s s' ↔ P s ∧ Accepts k s s' := by
  by_cases hp : P s
  · have hm := h.passes hp
    constructor
    · rintro ⟨hrun, hc⟩
      obtain ⟨ok, s₁, h1, h2⟩ := bind_eq_ok.mp hrun
      rw [hm] at h1
      cases h1
      exact ⟨hp, by simpa using h2, hc⟩
    · rintro ⟨-, hrun, hc⟩
      exact ⟨bind_eq_ok.mpr ⟨true, s, hm, by simpa using hrun⟩, hc⟩
  · obtain ⟨reason, hm⟩ := h.reports hp
    constructor
    · rintro ⟨hrun, hc⟩
      obtain ⟨ok, s₁, h1, h2⟩ := bind_eq_ok.mp hrun
      rw [hm] at h1
      cases h1
      obtain ⟨-, rfl⟩ := pure_eq_ok.mp h2
      exact absurd hc (by simp [CalculationState.Clean, ErrorCollector.hasErrorsFor_add])
    · rintro ⟨hp', -⟩
      exact absurd hp' hp

end Accepts

/-! ## The engine -/

theorem requiredText_eq_ok {value fieldName text : String} :
    requiredText value fieldName = .ok text ↔ strip value ≠ "" ∧ text = strip value := by
  unfold requiredText
  split_ifs with h
  · simp [h]
  · simp [h, eq_comm]

namespace LotDispositionEngine

variable {α : Type} {e e' : LotDispositionEngine} {id : String}

theorem onBooks_eq_ok {m : EStateM Raised CostBasisBooks α} {a : α} :
    onBooks m e = .ok a e' ↔ ∃ b, m e.books = .ok a b ∧ e' = { e with books := b } := by
  unfold onBooks
  exact zoom_eq_ok

/-- The engine without pending evidence of `id`. -/
def discarding (e : LotDispositionEngine) (id : String) : LotDispositionEngine :=
  { e with
    pendingDisposals := Evidence.erase e.pendingDisposals (strip id)
    pendingBasisTransfers := Evidence.erase e.pendingBasisTransfers (strip id) }

theorem discardPendingDisposal_eq_ok {u : Unit} :
    discardPendingDisposal id e = .ok u e' ↔ strip id ≠ "" ∧ e' = e.discarding id := by
  unfold discardPendingDisposal normalizedTransactionId discarding
  simp only [bind_liftM_eq_ok, modify_eq_ok, requiredText_eq_ok]
  constructor
  · rintro ⟨_, ⟨h, rfl⟩, rfl⟩; exact ⟨h, rfl⟩
  · rintro ⟨h, rfl⟩; exact ⟨_, ⟨h, rfl⟩, rfl⟩

end LotDispositionEngine

/-! ## The calculation -/

variable (t : CostBasisTransaction)

def normalizedCurrencies : CostBasisTransaction :=
  { t with
    tradeCurrency := normalizeTransactionControlCode (some t.tradeCurrency)
    portfolioBaseCurrency := normalizeTransactionControlCode (some t.portfolioBaseCurrency) }

/-- The type of an exchange deal, which carries its own rate. -/
def TransactionType.isFxDeal (type : TransactionType) : Prop :=
  type = .fxSpot ∨ type = .fxForward ∨ type = .fxSwap
  deriving Decidable

def SameCurrency : Prop :=
  (normalizedCurrencies t).tradeCurrency = (normalizedCurrencies t).portfolioBaseCurrency
  deriving Decidable

/-- The rate of a transaction: one between equal currencies, unless it is booked. -/
def contextFxRate : Option ℚ :=
  if ¬ t.transactionType.isFxDeal ∧ SameCurrency t then some (t.transactionFxRate.getD 1)
  else t.transactionFxRate

/-- A transaction with normalized currencies and its rate. -/
def currencyContext : CostBasisTransaction :=
  { normalizedCurrencies t with transactionFxRate := contextFxRate t }

/-- The rate is usable, and there is one between different currencies. -/
def HasCurrencyContext : Prop :=
  ¬ t.transactionFxRate.any (· ≤ 0) ∧
    (t.transactionType.isFxDeal ∨ SameCurrency t ∨ t.transactionFxRate.isSome)

section CurrencyContext

variable (t : CostBasisTransaction)

@[simp] theorem currencyContext_transactionId :
    (currencyContext t).transactionId = t.transactionId := rfl

@[simp] theorem currencyContext_transactionType :
    (currencyContext t).transactionType = t.transactionType := rfl

@[simp] theorem currencyContext_strategyFor : strategyFor (currencyContext t) = strategyFor t :=
  rfl

end CurrencyContext

section Calculation

variable {s s' : CalculationState}

theorem validateTransactionCurrencyContext_eq :
    validateTransactionCurrencyContext s =
      (if s.transaction.transactionFxRate.any (· ≤ 0) then
        report "Missing/invalid FX rate for transaction." >>= fun _ => pure false
      else if s.transaction.transactionType.isFxDeal then pure true
      else if SameCurrency s.transaction then
        update (fun t => { t with transactionFxRate := some (t.transactionFxRate.getD 1) }) >>=
          fun _ => pure true
      else if s.transaction.transactionFxRate.isSome then pure true
      else
        report ("Missing/invalid FX rate for cross-currency transaction from " ++
          (normalizedCurrencies s.transaction).tradeCurrency ++ " to " ++
          (normalizedCurrencies s.transaction).portfolioBaseCurrency ++ ".") >>=
            fun _ => pure false : Calc Bool)
        { s with transaction := normalizedCurrencies s.transaction } := rfl

theorem validateTransactionCurrencyContext_of (h : HasCurrencyContext s.transaction) :
    validateTransactionCurrencyContext s =
      .ok true { s with transaction := currencyContext s.transaction } := by
  rw [validateTransactionCurrencyContext_eq, if_neg h.1]
  unfold currencyContext contextFxRate
  by_cases hfx : s.transaction.transactionType.isFxDeal
  · rw [if_pos hfx, if_neg fun hc => hc.1 hfx]
    exact pure_eq_ok.mpr ⟨rfl, by simp only [normalizedCurrencies]⟩
  by_cases heq : SameCurrency s.transaction
  · rw [if_neg hfx, if_pos heq, if_pos ⟨hfx, heq⟩]
    exact bind_update_eq_ok.mpr (pure_eq_ok.mpr ⟨rfl, by simp only [normalizedCurrencies]⟩)
  · rw [if_neg hfx, if_neg heq, if_pos (h.2.resolve_left hfx |>.resolve_left heq),
      if_neg fun hc => heq hc.2]
    exact pure_eq_ok.mpr ⟨rfl, by simp only [normalizedCurrencies]⟩

theorem validateTransactionCurrencyContext_of_not (h : ¬ HasCurrencyContext s.transaction) :
    ∃ s₁, validateTransactionCurrencyContext s = .ok false s₁ ∧ ¬ s₁.Clean := by
  rw [validateTransactionCurrencyContext_eq]
  have hreport : ∀ (reason : String) (s₀ : CalculationState), ∃ s₁,
      (report reason >>= fun _ => pure false : Calc Bool) s₀ = .ok false s₁ ∧ ¬ s₁.Clean :=
    fun reason s₀ => ⟨_, rfl, not_clean_of_report (u := ()) (r := reason) (s := s₀) rfl⟩
  split_ifs with h1 h2 h3 h4
  · exact hreport _ _
  · exact absurd ⟨h1, .inl h2⟩ h
  · exact absurd ⟨h1, .inr (.inl h3)⟩ h
  · exact absurd ⟨h1, .inr (.inr h4)⟩ h
  · exact hreport _ _

theorem accepts_validateTransactionCurrencyContext_ite {k : Calc Unit} :
    Accepts (validateTransactionCurrencyContext >>= fun ok => if ok = true then k else pure ())
        s s' ↔
      HasCurrencyContext s.transaction ∧
        Accepts k { s with transaction := currencyContext s.transaction } s' := by
  constructor
  · rintro ⟨hrun, hc⟩
    obtain ⟨ok, s₁, h1, h2⟩ := bind_eq_ok.mp hrun
    by_cases h : HasCurrencyContext s.transaction
    · rw [validateTransactionCurrencyContext_of h] at h1
      cases h1
      exact ⟨h, h2, hc⟩
    · obtain ⟨s₂, h3, hs₂⟩ := validateTransactionCurrencyContext_of_not h
      rw [h3] at h1
      cases h1
      obtain ⟨-, rfl⟩ := pure_eq_ok.mp h2
      exact absurd hc hs₂
  · rintro ⟨h, hrun, hc⟩
    exact ⟨bind_eq_ok.mpr ⟨true, _, validateTransactionCurrencyContext_of h, hrun⟩, hc⟩

theorem accepts_runStrategy {strategy : CostStrategy} {input : List (String × ℚ)} :
    Accepts (runStrategy strategy input) s s' ↔ ∃ s₁, Accepts strategy.calculateCosts s s₁ ∧
      (∃ p, canonicalPayload input = .ok p) ∧
      (∃ p, canonicalPayload (transactionCostOutput s₁.transaction) = .ok p) ∧
      ∃ e, LotDispositionEngine.commitDisposalRecord s₁.transaction.transactionId s₁.engine =
        .ok () e ∧ s' = { s₁ with engine := e } := by
  unfold runStrategy
  constructor
  · rintro ⟨hrun, hc⟩
    obtain ⟨_, s₁, h1, h2⟩ := bind_eq_ok.mp hrun
    rw [bind_get_eq_ok] at h2
    split_ifs at h2 with herr
    · obtain ⟨-, rfl⟩ := pure_eq_ok.mp h2
      exact absurd (hc.symm.trans herr) (by decide)
    · simp only [bind_liftM_eq_ok, withEngine_eq_ok] at h2
      obtain ⟨p, hp, p', hp', e, he, rfl⟩ := h2
      exact ⟨s₁, ⟨h1, hc⟩, ⟨p, hp⟩, ⟨p', hp'⟩, e, he, rfl⟩
  · rintro ⟨s₁, ⟨h1, hc⟩, ⟨p, hp⟩, ⟨p', hp'⟩, e, he, rfl⟩
    refine ⟨bind_eq_ok.mpr ⟨(), s₁, h1, ?_⟩, hc⟩
    rw [bind_get_eq_ok, if_neg (by rw [hc]; decide)]
    simp only [bind_liftM_eq_ok, withEngine_eq_ok]
    exact ⟨p, hp, p', hp', e, he, rfl⟩

/-- The checks before and after the strategy of an accepted calculation. -/
structure Admitted (t t' : CostBasisTransaction) : Prop where
  context : HasCurrencyContext t
  registered : t.transactionType.isProductionBooking = true
  defined : t.transactionType.definition ≠ none
  cashAccount : cashAccountRequiredError (currencyContext t) = none
  identified : strip t.transactionId ≠ ""
  input : ∃ p, canonicalPayload (transactionCostInput (currencyContext t)) = .ok p
  output : ∃ p, canonicalPayload (transactionCostOutput t') = .ok p

theorem not_clean_of_resolveStrategy (h : resolveStrategy s = .ok none s') : ¬ s'.Clean := by
  unfold resolveStrategy at h
  rw [bind_current_eq_ok] at h
  split_ifs at h
  · obtain ⟨_, s₁, h1, h2⟩ := bind_eq_ok.mp h
    obtain ⟨-, rfl⟩ := pure_eq_ok.mp h2
    exact not_clean_of_report h1
  · cases hst : strategyFor s.transaction with
    | some strategy =>
      simp only [hst] at h
      cases (pure_eq_ok.mp h).1
    | none =>
      simp only [hst] at h
      obtain ⟨_, s₁, h1, h2⟩ := bind_eq_ok.mp h
      obtain ⟨-, rfl⟩ := pure_eq_ok.mp h2
      exact not_clean_of_report h1

theorem accepts_resolveStrategy_bind {k : CostStrategy → Calc Unit} :
    Accepts (resolveStrategy >>= fun found =>
        match found with
        | none => pure ()
        | some strategy => k strategy) s s' ↔
      s.transaction.transactionType.isProductionBooking = true ∧
        ∃ strategy, strategyFor s.transaction = some strategy ∧ Accepts (k strategy) s s' := by
  constructor
  · rintro ⟨hrun, hc⟩
    obtain ⟨found, s₁, h1, h2⟩ := bind_eq_ok.mp hrun
    cases found with
    | none =>
      obtain ⟨-, rfl⟩ := pure_eq_ok.mp h2
      exact absurd hc (not_clean_of_resolveStrategy h1)
    | some strategy =>
      obtain ⟨rfl, hp, hf⟩ := resolveStrategy_eq_some.mp h1
      exact ⟨hp, strategy, hf, h2, hc⟩
  · rintro ⟨hp, strategy, hf, hrun, hc⟩
    exact ⟨bind_eq_ok.mpr ⟨some strategy, s, resolveStrategy_eq_some.mpr ⟨rfl, hp, hf⟩, hrun⟩, hc⟩

theorem accepts_ensure_runStrategy {strategy : CostStrategy} {input : List (String × ℚ)}
    {id : String} :
    Accepts (withEngine (LotDispositionEngine.discardPendingDisposal id) >>= fun _ =>
        ensure (runStrategy strategy input)
          (withEngine (LotDispositionEngine.discardPendingDisposal id))) s s' ↔
      strip id ≠ "" ∧ ∃ s₁, Accepts (runStrategy strategy input)
          { s with engine := s.engine.discarding id } s₁ ∧
        s' = { s₁ with engine := s₁.engine.discarding id } := by
  rw [accepts_withEngine_bind]
  unfold Accepts
  simp only [ensure_eq_ok, withEngine_eq_ok, LotDispositionEngine.discardPendingDisposal_eq_ok]
  constructor
  · rintro ⟨_, _, ⟨hid, rfl⟩, ⟨s₁, h1, _, ⟨-, rfl⟩, rfl⟩, hclean⟩
    exact ⟨hid, s₁, ⟨h1, hclean⟩, rfl⟩
  · rintro ⟨hid, s₁, ⟨h1, hclean⟩, rfl⟩
    exact ⟨(), _, ⟨hid, rfl⟩, ⟨s₁, h1, _, ⟨hid, rfl⟩, rfl⟩, hclean⟩

/-- **Acceptance.** A transaction is accepted when every check around its strategy passes and the
strategy is accepted. -/
theorem accepts_calculateTransactionCosts :
    Accepts calculateTransactionCosts s s' ↔
      ∃ strategy s₁ e, strategyFor s.transaction = some strategy ∧
        Admitted s.transaction s₁.transaction ∧
        Accepts strategy.calculateCosts
          { s with
            transaction := currencyContext s.transaction
            engine := s.engine.discarding s.transaction.transactionId } s₁ ∧
        LotDispositionEngine.commitDisposalRecord s₁.transaction.transactionId s₁.engine =
          .ok () e ∧
        s' = { s₁ with engine := e.discarding s.transaction.transactionId } := by
  unfold calculateTransactionCosts
  rw [accepts_validateTransactionCurrencyContext_ite, accepts_current_bind, accepts_ite]
  simp only [accepts_report, and_false, false_or]
  constructor
  · rintro ⟨hctx, hdef, h⟩
    cases hcash : cashAccountRequiredError (currencyContext s.transaction) with
    | some reason =>
      simp only [hcash] at h
      exact (accepts_report.mp h).elim
    | none =>
      simp only [hcash] at h
      obtain ⟨hp, strategy, hf, hensure⟩ := accepts_resolveStrategy_bind.mp h
      obtain ⟨hid, s₂, hrun, rfl⟩ := accepts_ensure_runStrategy.mp hensure
      obtain ⟨s₁, h1, hin, hout, e, he, rfl⟩ := accepts_runStrategy.mp hrun
      simp only [currencyContext_strategyFor, currencyContext_transactionId,
        currencyContext_transactionType] at hp hf hid hdef
      exact ⟨strategy, s₁, e, hf, ⟨hctx, hp, by simpa using hdef, hcash, hid, hin, hout⟩, h1,
        he, rfl⟩
  · rintro ⟨strategy, s₁, e, hf, ha, h1, he, rfl⟩
    refine ⟨ha.context, by simpa using ha.defined, ?_⟩
    simp only [ha.cashAccount]
    refine accepts_resolveStrategy_bind.mpr ⟨ha.registered, strategy, ?_, ?_⟩
    · rw [currencyContext_strategyFor, hf]
    rw [currencyContext_transactionId]
    refine accepts_ensure_runStrategy.mpr ⟨ha.identified, { s₁ with engine := e }, ?_, rfl⟩
    exact accepts_runStrategy.mpr ⟨s₁, h1, ha.input, ha.output, e, he, rfl⟩

end Calculation

/-! ## Timelines -/

section Timeline

variable {s s' : TimelineState} {t t' : CostBasisTransaction} {strategy : CostStrategy}

theorem calculateTransaction_eq_true_iff_accepts :
    calculateTransaction s t = (s', t', true) ↔
      Accepts calculateTransactionCosts ⟨t, s.engine, s.errors⟩ ⟨t', s'.engine, s'.errors⟩ := by
  have hid := (calculateTransactionCosts_booking ⟨t, s.engine, s.errors⟩).transaction
  unfold calculateTransaction Accepts CalculationState.Clean
  cases h : calculateTransactionCosts ⟨t, s.engine, s.errors⟩ with
  | error e c => simp
  | ok u c =>
    rw [h] at hid
    have hid' : c.transaction.transactionId = t.transactionId := by
      have : c.transaction.booking.transactionId = t.booking.transactionId := by
        rw [show c.transaction.booking = t.booking from hid]
      exact this
    obtain ⟨ct, ce, cerr⟩ := c
    obtain ⟨e, errs⟩ := s'
    simp only at hid'
    simp only [Prod.mk.injEq, TimelineState.mk.injEq, Bool.not_eq_eq_eq_not, Bool.not_true,
      EStateM.Result.ok.injEq, CalculationState.mk.injEq, true_and]
    constructor
    · rintro ⟨⟨rfl, rfl⟩, rfl, herr⟩
      exact ⟨⟨rfl, rfl, rfl⟩, hid' ▸ herr⟩
    · rintro ⟨⟨rfl, rfl, rfl⟩, herr⟩
      exact ⟨⟨rfl, rfl⟩, rfl, hid' ▸ herr⟩

theorem calculateTransaction_keeps_errors {id : String} (h : s.errors.hasErrorsFor id = true) :
    (calculateTransaction s t).1.errors.hasErrorsFor id = true := by
  have hkeep := (calculateTransactionCosts_booking ⟨t, s.engine, s.errors⟩).errors id h
  unfold calculateTransaction
  cases hrun : calculateTransactionCosts ⟨t, s.engine, s.errors⟩ with
  | ok u c => rwa [hrun] at hkeep
  | error e c =>
    rw [hrun] at hkeep
    exact ErrorCollector.hasErrorsFor_add_of _ _ hkeep

theorem hasErrorsFor_of_calculateTransaction_eq_false (h : (calculateTransaction s t).2.2 = false) :
    (calculateTransaction s t).1.errors.hasErrorsFor t.transactionId = true := by
  unfold calculateTransaction at h ⊢
  cases hrun : calculateTransactionCosts ⟨t, s.engine, s.errors⟩ with
  | ok u c =>
    rw [hrun] at h
    simpa using h
  | error e c => exact ErrorCollector.hasErrorsFor_add _ _ _

theorem processSortedTimeline_keeps_errors {id : String} (timeline : List CostBasisTransaction)
    (h : s.errors.hasErrorsFor id = true) :
    (processSortedTimeline s timeline).1.errors.hasErrorsFor id = true := by
  induction timeline generalizing s with
  | nil => exact h
  | cons t timeline ih => exact ih (calculateTransaction_keeps_errors h)

theorem processSortedTimeline_cons_of_accepted {timeline : List CostBasisTransaction}
    (h : (processSortedTimeline s (t :: timeline)).1.errors = []) :
    ∃ s' t', calculateTransaction s t = (s', t', true) ∧
      processSortedTimeline s (t :: timeline) =
        ((processSortedTimeline s' timeline).1, t' :: (processSortedTimeline s' timeline).2) := by
  rcases hrun : calculateTransaction s t with ⟨s', t', accepted⟩
  simp only [processSortedTimeline, hrun] at h ⊢
  cases accepted with
  | true => exact ⟨s', t', rfl, rfl⟩
  | false =>
    have herr := hasErrorsFor_of_calculateTransaction_eq_false (s := s) (t := t) (by rw [hrun])
    rw [hrun] at herr
    have hkeep := processSortedTimeline_keeps_errors timeline herr
    rw [h] at hkeep
    cases hkeep

end Timeline

theorem processSortedTimeline_append (s : TimelineState) (xs ys : List CostBasisTransaction) :
    processSortedTimeline s (xs ++ ys) =
      ((processSortedTimeline (processSortedTimeline s xs).1 ys).1,
        (processSortedTimeline s xs).2 ++
          (processSortedTimeline (processSortedTimeline s xs).1 ys).2) := by
  induction xs generalizing s with
  | nil => rfl
  | cons t xs ih =>
    simp only [List.cons_append, processSortedTimeline, ih]
    split_ifs <;> rfl

end LotusCore
