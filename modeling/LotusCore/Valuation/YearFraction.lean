import LotusCore.Data.Tiling
import LotusCore.Valuation.DayCount

/-!
# Year fractions grow with the interval

* `Grows`: a later end is accepted only where an earlier one is, with a value at least as large; one
  lemma for each convention.
* `icmaLoop_eq`: the loop over the reference periods is a tiling scan and a sum.
* `actualActualIcmaFraction_perm`: the order of the reference periods has no influence.
* **`year_fraction_monotone`**: for every convention and version.
-/

namespace LotusCore.DayCount

open Decimal Exec Tiling List

/-! ## Growth with the end of the interval -/

/-- Two intervals with the same start and the same source facts, the second one ending no
earlier. -/
structure Extends (i₁ i₂ : DayCountInputs) : Prop where
  periodStart : i₁.periodStart = i₂.periodStart
  periodEnd : i₁.periodEnd ≤ i₂.periodEnd
  businessDayCalendar : i₁.businessDayCalendar = i₂.businessDayCalendar
  contractualTerminationDate : i₁.contractualTerminationDate = i₂.contractualTerminationDate
  icmaReferencePeriods : i₁.icmaReferencePeriods = i₂.icmaReferencePeriods

/-- A later end is accepted only where an earlier one is, with a value at least as large. -/
def Grows {β : Type} [Zero β] [LE β] (f : DayCountInputs → Except Raised β) : Prop :=
  ∀ ⦃i₁ i₂⦄, Extends i₁ i₂ → i₁.periodStart < i₁.periodEnd → ∀ ⦃v₂⦄, f i₂ = .ok v₂ →
    ∃ v₁, f i₁ = .ok v₁ ∧ 0 ≤ v₁ ∧ v₁ ≤ v₂

theorem ratio_nonneg {numerator : ℤ} (h : 0 ≤ numerator) (denominator : ℕ) :
    0 ≤ ratio numerator denominator :=
  Context.round_nonneg _ (div_nonneg (Int.cast_nonneg h) (Nat.cast_nonneg _))

theorem ratio_mono {n₁ n₂ : ℤ} (h₁ : 0 ≤ n₁) (h : n₁ ≤ n₂) (denominator : ℕ) :
    ratio n₁ denominator ≤ ratio n₂ denominator := by
  refine Context.round_mono _ (div_nonneg (Int.cast_nonneg h₁) (Nat.cast_nonneg _)) ?_
  gcongr

theorem Grows.ratio {f : DayCountInputs → Except Raised ℤ} (h : Grows f) (denominator : ℕ) :
    Grows fun inputs => (f inputs).map (DayCount.ratio · denominator) := by
  intro i₁ i₂ hext hlt v₂ hv₂
  obtain ⟨n₂, hn₂, rfl⟩ := except_map_eq_ok.mp hv₂
  obtain ⟨n₁, hn₁, hnonneg, hle⟩ := h hext hlt hn₂
  exact ⟨_, except_map_eq_ok.mpr ⟨n₁, hn₁, rfl⟩, ratio_nonneg hnonneg _, ratio_mono hnonneg hle _⟩

theorem grows_daysBetween :
    Grows fun inputs => .ok (CivilDate.daysBetween inputs.periodStart inputs.periodEnd) := by
  rintro i₁ i₂ hext hlt v₂ hv₂
  cases hv₂
  exact ⟨_, rfl, CivilDate.daysBetween_nonneg hlt.le,
    CivilDate.daysBetween_mono hext.periodStart.ge hext.periodEnd⟩

theorem grows_businessDayCount : Grows businessDayCount := by
  intro i₁ i₂ hext hlt v₂ hv₂
  unfold businessDayCount at hv₂ ⊢
  rw [hext.businessDayCalendar, hext.periodStart]
  cases hcal : i₂.businessDayCalendar with
  | none => simp [hcal] at hv₂
  | some calendar =>
    simp only [hcal] at hv₂ ⊢
    split_ifs at hv₂ with hcover
    cases hv₂
    have hcover₁ : ¬ (i₂.periodStart < calendar.validFrom ∨ calendar.validTo < i₁.periodEnd) := by
      rintro (h | h)
      · exact hcover (.inl h)
      · exact hcover (.inr (h.trans_le hext.periodEnd))
    refine ⟨_, if_neg hcover₁, Int.natCast_nonneg _, Int.ofNat_le.mpr (Finset.card_le_card ?_)⟩
    exact Finset.monotone_filter_right _ fun day _ hday => ⟨hday.1, hday.2.trans_le hext.periodEnd⟩

/-! ## Thirty-day months -/

theorem thirty360Numerator_mono {s e₁ e₂ : CivilDate} {startDay d₁ d₂ : ℤ} (h : e₁ ≤ e₂)
    (hd₁ : d₁ ≤ 31) (hd₂ : 1 ≤ d₂)
    (hmonth : e₁.year = e₂.year → e₁.month = e₂.month → d₁ ≤ d₂) :
    thirty360Numerator s e₁ startDay d₁ ≤ thirty360Numerator s e₂ startDay d₂ := by
  have hm₁ := e₁.month_le
  have hm₂ := e₂.month_pos
  unfold thirty360Numerator
  rcases h.eq_or_lt with rfl | h
  · have := hmonth rfl rfl
    omega
  · rcases CivilDate.lt_iff_fields.mp h with hy | ⟨hy, hm | ⟨hm, -⟩⟩
    · omega
    · omega
    · have := hmonth hy hm
      omega

/-- It is not negative, if the day put in for the start is at most 30 and no later than the day put
in for an end in the same month. -/
theorem thirty360Numerator_nonneg {s e : CivilDate} {startDay endDay : ℤ} (h : s < e)
    (hs : startDay ≤ 30) (he : 1 ≤ endDay)
    (hmonth : s.year = e.year → s.month = e.month → startDay ≤ endDay) :
    0 ≤ thirty360Numerator s e startDay endDay := by
  have hm₁ := s.month_le
  have hm₂ := e.month_pos
  unfold thirty360Numerator
  rcases CivilDate.lt_iff_fields.mp h with hy | ⟨hy, hm | ⟨hm, -⟩⟩
  · omega
  · omega
  · have := hmonth hy hm
    omega

theorem isLastDayOfMonth_iff {d : CivilDate} :
    d.isLastDayOfMonth = true ↔ d.day = daysInMonth d.year d.month := by
  simp [CivilDate.isLastDayOfMonth]

theorem isLastDayOfFebruary_iff {d : CivilDate} :
    d.isLastDayOfFebruary = true ↔ d.month = 2 ∧ d.day = daysInMonth d.year d.month := by
  simp [CivilDate.isLastDayOfFebruary, CivilDate.isLastDayOfMonth]

theorem daysInMonth_february (year : ℕ) : daysInMonth year 2 ≤ 29 := by
  unfold daysInMonth
  split_ifs <;> omega

theorem grows_thirty360UsDays (adjustPairedFebruaryEom : Bool) :
    Grows fun inputs =>
      .ok (thirty360UsDays inputs.periodStart inputs.periodEnd adjustPairedFebruaryEom) := by
  rintro i₁ i₂ hext hlt v₂ hv₂
  cases hv₂
  refine ⟨_, rfl, ?_, ?_⟩
  · have hs := i₁.periodStart.day_le
    have he := i₁.periodEnd.day_le
    have he₀ := i₁.periodEnd.day_pos
    have hs₃₁ := i₁.periodStart.day_le_thirtyOne
    unfold thirty360UsDays
    apply thirty360Numerator_nonneg hlt
    · split_ifs <;> grind
    · split_ifs <;> grind
    · intro hy hm
      have hday := CivilDate.day_lt_of_lt hlt hy hm
      rw [hy, hm] at hs
      have := isLastDayOfFebruary_iff (d := i₁.periodStart)
      rw [hy, hm] at this
      grind
  · rw [hext.periodStart]
    unfold thirty360UsDays
    have he₁ := i₁.periodEnd.day_le_thirtyOne
    apply thirty360Numerator_mono hext.periodEnd
    · split_ifs <;> grind
    · have he₂ := i₂.periodEnd.day_pos
      split_ifs <;> grind
    · intro hy hm
      have hday := CivilDate.day_le_of_le hext.periodEnd hy hm
      have hfeb := daysInMonth_february i₂.periodEnd.year
      have hlast₁ := isLastDayOfFebruary_iff (d := i₁.periodEnd)
      have hlast₂ := isLastDayOfFebruary_iff (d := i₂.periodEnd)
      have hle₂ := i₂.periodEnd.day_le
      rw [hy, hm] at hlast₁
      grind

theorem grows_thirtyE360Days :
    Grows fun inputs => .ok (thirtyE360Days inputs.periodStart inputs.periodEnd) := by
  rintro i₁ i₂ hext hlt v₂ hv₂
  cases hv₂
  refine ⟨_, rfl, ?_, ?_⟩
  · have he₀ := i₁.periodEnd.day_pos
    unfold thirtyE360Days
    apply thirty360Numerator_nonneg hlt
    · omega
    · omega
    · intro hy hm
      have hday := CivilDate.day_lt_of_lt hlt hy hm
      omega
  · rw [hext.periodStart]
    have he₂ := i₂.periodEnd.day_pos
    unfold thirtyE360Days
    apply thirty360Numerator_mono hext.periodEnd
    · omega
    · omega
    · intro hy hm
      have hday := CivilDate.day_le_of_le hext.periodEnd hy hm
      omega

theorem grows_thirtyE360IsdaDays : Grows thirtyE360IsdaDays := by
  intro i₁ i₂ hext hlt v₂ hv₂
  unfold thirtyE360IsdaDays at hv₂ ⊢
  rw [hext.contractualTerminationDate]
  cases hterm : i₂.contractualTerminationDate with
  | none => simp [hterm] at hv₂
  | some terminationDate =>
    have hle := i₂.le_termination terminationDate hterm
    simp only [hterm] at hv₂ ⊢
    cases hv₂
    refine ⟨_, rfl, ?_, ?_⟩
    · have hs := i₁.periodStart.day_le
      have hs₃₁ := i₁.periodStart.day_le_thirtyOne
      have he₀ := i₁.periodEnd.day_pos
      apply thirty360Numerator_nonneg hlt
      · have hbound := daysInMonth_le i₁.periodStart.year i₁.periodStart.month
        simp only [CivilDate.isLastDayOfMonth]
        grind
      · grind
      · intro hy hm
        have hday := CivilDate.day_lt_of_lt hlt hy hm
        have he := i₁.periodEnd.day_le
        have hbound := daysInMonth_le i₁.periodEnd.year i₁.periodEnd.month
        have hlast₁ := isLastDayOfMonth_iff (d := i₁.periodStart)
        rw [hy, hm] at hlast₁
        grind
    · rw [hext.periodStart]
      have he₁ := i₁.periodEnd.day_le_thirtyOne
      have he₂ := i₂.periodEnd.day_pos
      apply thirty360Numerator_mono hext.periodEnd
      · grind
      · grind
      · intro hy hm
        have hday := CivilDate.day_le_of_le hext.periodEnd hy hm
        have hsame := CivilDate.ext_fields hy hm
        have hfeb := daysInMonth_february i₂.periodEnd.year
        have hbound := daysInMonth_le i₂.periodEnd.year i₂.periodEnd.month
        have hle₂ := i₂.periodEnd.day_le
        have hlast₁ := isLastDayOfMonth_iff (d := i₁.periodEnd)
        have hlast₂ := isLastDayOfMonth_iff (d := i₂.periodEnd)
        rw [hy, hm] at hlast₁
        grind

/-! ## Sums of rounded quotients -/

/-- A number the context holds as it is. -/
def Held (x : ℚ) : Prop := dayCountContext.round x = x

theorem held_zero : Held 0 := Context.round_zero _

theorem held_round (x : ℚ) : Held (dayCountContext.round x) := Context.round_round _ _

/-- Adding a quotient that is not negative does not make the sum smaller. -/
theorem le_round_add {x t : ℚ} (hx : 0 ≤ x) (hheld : Held x) (ht : 0 ≤ t) :
    x ≤ dayCountContext.round (x + dayCountContext.round t) := by
  have h := Context.round_mono dayCountContext hx
    (le_add_of_nonneg_right (Context.round_nonneg dayCountContext ht))
  rwa [hheld] at h

theorem round_add_mono {x y t u : ℚ} (hx : 0 ≤ x) (hxy : x ≤ y) (ht : 0 ≤ t) (htu : t ≤ u) :
    dayCountContext.round (x + dayCountContext.round t) ≤
      dayCountContext.round (y + dayCountContext.round u) :=
  Context.round_mono _ (add_nonneg hx (Context.round_nonneg _ ht))
    (add_le_add hxy (Context.round_mono _ ht htu))

/-! ## Actual days over the days of the year -/

section Isda

variable {segmentStart e₁ e₂ : CivilDate} {x : ℚ}

theorem held_addActual : Held (addActual segmentStart e₁ x) := held_round _

theorem le_addActual (hx : 0 ≤ x) (hheld : Held x) (h : segmentStart ≤ e₁) :
    x ≤ addActual segmentStart e₁ x :=
  le_round_add hx hheld (div_nonneg (Int.cast_nonneg (CivilDate.daysBetween_nonneg h))
    (by split_ifs <;> norm_num))

theorem addActual_mono (hx : 0 ≤ x) (h : segmentStart ≤ e₁) (he : e₁ ≤ e₂) :
    addActual segmentStart e₁ x ≤ addActual segmentStart e₂ x := by
  have hdays : (0 : ℚ) ≤ CivilDate.daysBetween segmentStart e₁ :=
    Int.cast_nonneg (CivilDate.daysBetween_nonneg h)
  have hmore : (CivilDate.daysBetween segmentStart e₁ : ℚ) ≤
      CivilDate.daysBetween segmentStart e₂ :=
    Int.cast_le.mpr (CivilDate.daysBetween_mono le_rfl he)
  refine round_add_mono hx le_rfl (div_nonneg hdays ?_) (div_le_div_of_nonneg_right hmore ?_) <;>
    split_ifs <;> norm_num

theorem le_isdaLoop {years : ℕ} (hx : 0 ≤ x) (hheld : Held x) :
    x ≤ isdaLoop e₁ years segmentStart x := by
  induction years generalizing segmentStart x with
  | zero =>
    rw [isdaLoop]
    split_ifs with h
    · exact le_addActual hx hheld h.le
    · exact le_rfl
  | succ years ih =>
    have hstep : x ≤ addActual segmentStart _ x :=
      le_addActual hx hheld (CivilDate.le_newYear_of_year_le le_rfl)
    exact hstep.trans (ih (hx.trans hstep) held_addActual)

theorem isdaLoop_mono {years₁ years₂ : ℕ} (hx : 0 ≤ x) (hheld : Held x) (hs : segmentStart ≤ e₁)
    (he : e₁ ≤ e₂) (h₁ : segmentStart.year + years₁ = e₁.year)
    (h₂ : segmentStart.year + years₂ = e₂.year) :
    isdaLoop e₁ years₁ segmentStart x ≤ isdaLoop e₂ years₂ segmentStart x := by
  have hyears : years₁ ≤ years₂ := by
    have := CivilDate.year_le_of_le he
    omega
  -- both runs take the same parts up to the last year of the first interval
  induction years₁ generalizing segmentStart x years₂ with
  | zero =>
    have hfirst : isdaLoop e₁ 0 segmentStart x ≤ addActual segmentStart e₁ x := by
      rw [isdaLoop]
      split_ifs
      · exact le_rfl
      · exact le_addActual hx hheld hs
    cases years₂ with
    | zero =>
      rw [isdaLoop, isdaLoop]
      split_ifs with hlt₁ hlt₂ hlt₂
      · exact addActual_mono hx hs he
      · exact absurd (hlt₁.trans_le he) hlt₂
      · exact le_addActual hx hheld hlt₂.le
      · exact le_rfl
    | succ years₂ =>
      have hend : e₁ ≤ CivilDate.newYear (segmentStart.year + 1) (Nat.le_add_left _ _) :=
        CivilDate.le_newYear_of_year_le (by omega)
      calc isdaLoop e₁ 0 segmentStart x
          ≤ addActual segmentStart e₁ x := hfirst
        _ ≤ addActual segmentStart _ x := addActual_mono hx hs hend
        _ ≤ _ := le_isdaLoop (hx.trans (le_addActual hx hheld (hs.trans hend))) held_addActual
  | succ years₁ ih =>
    cases years₂ with
    | zero => omega
    | succ years₂ =>
      have hstep : x ≤ addActual segmentStart _ x :=
        le_addActual hx hheld (CivilDate.le_newYear_of_year_le le_rfl)
      refine ih (hx.trans hstep) held_addActual (CivilDate.newYear_le_of_le_year ?_) ?_ ?_
        (by omega)
      · omega
      · change segmentStart.year + 1 + years₁ = e₁.year
        omega
      · change segmentStart.year + 1 + years₂ = e₂.year
        omega

theorem grows_actualActualIsdaFraction :
    Grows fun inputs =>
      .ok (actualActualIsdaFraction inputs.periodStart inputs.periodEnd) := by
  rintro i₁ i₂ hext hlt v₂ hv₂
  cases hv₂
  have hyear₁ := CivilDate.year_le_of_le i₁.start_le
  have hyear₂ := CivilDate.year_le_of_le i₂.start_le
  have hnonneg : 0 ≤ isdaLoop i₁.periodEnd (i₁.periodEnd.year - i₁.periodStart.year)
      i₁.periodStart 0 := le_isdaLoop le_rfl held_zero
  refine ⟨_, rfl, Context.round_nonneg _ hnonneg, Context.round_mono _ hnonneg ?_⟩
  rw [← hext.periodStart] at hyear₂ ⊢
  exact isdaLoop_mono le_rfl held_zero hlt.le hext.periodEnd (by omega) (by omega)

end Isda

/-! ## Actual days over the days of coupon periods -/

/-- The reference periods hold each day of the interval once. -/
def CoversOnce (inputs : DayCountInputs) : Prop :=
  ∀ day, inputs.periodStart ≤ day → day < inputs.periodEnd →
    cover IcmaReferencePeriod.referenceStart IcmaReferencePeriod.referenceEnd
      inputs.icmaReferencePeriods day = 1

variable {a b : IcmaReferencePeriod}

section Icma

variable {s e e₁ e₂ c : CivilDate} {x y : ℚ} {references : List IcmaReferencePeriod}

/-- The sum the loop forms, whatever it covers. -/
def icmaSum (s e : CivilDate) : List IcmaReferencePeriod → ℚ → ℚ
  | [], fraction => fraction
  | reference :: rest, fraction =>
    if min e reference.referenceEnd ≤ max s reference.referenceStart then icmaSum s e rest fraction
    else icmaSum s e rest (addReference s e reference fraction)

/-- The loop accepts what tiles the interval and then returns the sum. -/
theorem icmaLoop_eq : icmaLoop s e references c x =
    if tiles IcmaReferencePeriod.referenceStart IcmaReferencePeriod.referenceEnd s e references
        c then
      .ok (dayCountContext.round (icmaSum s e references x))
    else
      .error (.valueError
        "ICMA reference periods must cover the calculation interval exactly once") := by
  induction references generalizing c x with
  | nil =>
    by_cases h : c = e <;> simp [icmaLoop, tiles, icmaSum, h]
  | cons reference rest ih =>
    simp only [icmaLoop, tiles, icmaSum]
    by_cases hempty : min e reference.referenceEnd ≤ max s reference.referenceStart
    · simp only [hempty, if_true, ih]
    · simp only [if_neg hempty]
      by_cases hstart : max s reference.referenceStart = c
      · simp only [hstart, ne_eq, not_true, if_false, decide_true, Bool.true_and, ih]
      · simp [hstart]

theorem sortedPeriods_perm (references : List IcmaReferencePeriod) :
    (sortedPeriods references).Perm references := perm_insertionSort _ _

instance : Std.Total fun a b : IcmaReferencePeriod => a.key ≤ b.key :=
  ⟨fun a b => le_total a.key b.key⟩

instance : IsTrans IcmaReferencePeriod fun a b => a.key ≤ b.key :=
  ⟨fun _ _ _ => le_trans⟩

theorem sortedPeriods_pairwise (references : List IcmaReferencePeriod) :
    (sortedPeriods references).Pairwise fun a b => a.key ≤ b.key :=
  pairwise_insertionSort _ _

theorem referenceStart_le_of_key_le (h : a.key ≤ b.key) : a.referenceStart ≤ b.referenceStart := by
  rcases Prod.Lex.toLex_le_toLex.mp h with h | ⟨h, -⟩
  · exact h.le
  · exact h.le

/-- The scan over the sorted periods accepts what covers each day once. -/
theorem tiles_sortedPeriods_iff (h : s ≤ e) :
    tiles IcmaReferencePeriod.referenceStart IcmaReferencePeriod.referenceEnd s e
        (sortedPeriods references) s ↔
      ∀ day, s ≤ day → day < e →
        cover IcmaReferencePeriod.referenceStart IcmaReferencePeriod.referenceEnd references day
          = 1 := by
  rw [tiles_iff ((sortedPeriods_pairwise references).imp referenceStart_le_of_key_le) h]
  simp only [cover_perm (sortedPeriods_perm references)]

variable {reference : IcmaReferencePeriod}

theorem held_addReference : Held (addReference s e reference x) :=
  held_round _

theorem reference_weight_pos (reference : IcmaReferencePeriod) :
    0 < CivilDate.daysBetween reference.referenceStart reference.referenceEnd *
      reference.couponFrequencyPerYear :=
  mul_pos (CivilDate.daysBetween_pos reference.nonempty)
    (by exact_mod_cast reference.frequency_pos)

theorem le_addReference (hx : 0 ≤ x) (hheld : Held x)
    (h : max s reference.referenceStart ≤ min e reference.referenceEnd) :
    x ≤ addReference s e reference x :=
  le_round_add hx hheld (div_nonneg (Int.cast_nonneg (CivilDate.daysBetween_nonneg h))
    (Int.cast_nonneg (reference_weight_pos reference).le))

theorem addReference_mono (hx : 0 ≤ x) (hxy : x ≤ y)
    (h : max s reference.referenceStart ≤ min e₁ reference.referenceEnd) (he : e₁ ≤ e₂) :
    addReference s e₁ reference x ≤ addReference s e₂ reference y := by
  have hdays : (0 : ℚ) ≤ CivilDate.daysBetween (max s reference.referenceStart)
      (min e₁ reference.referenceEnd) := Int.cast_nonneg (CivilDate.daysBetween_nonneg h)
  have hmore : (CivilDate.daysBetween (max s reference.referenceStart)
      (min e₁ reference.referenceEnd) : ℚ) ≤ CivilDate.daysBetween (max s reference.referenceStart)
      (min e₂ reference.referenceEnd) :=
    Int.cast_le.mpr (CivilDate.daysBetween_mono le_rfl (min_le_min_right _ he))
  have hweight : (0 : ℚ) ≤ ((CivilDate.daysBetween reference.referenceStart reference.referenceEnd *
      reference.couponFrequencyPerYear : ℤ) : ℚ) :=
    Int.cast_nonneg (reference_weight_pos reference).le
  exact round_add_mono hx hxy (div_nonneg hdays hweight) (div_le_div_of_nonneg_right hmore hweight)

theorem icmaSum_mono (he : e₁ ≤ e₂) (hx : 0 ≤ x) (hxy : x ≤ y) (hheld : Held x) (hheldy : Held y) :
    0 ≤ icmaSum s e₁ references x ∧ icmaSum s e₁ references x ≤ icmaSum s e₂ references y := by
  induction references generalizing x y with
  | nil => exact ⟨hx, hxy⟩
  | cons reference rest ih =>
    rw [icmaSum, icmaSum]
    by_cases h₁ : min e₁ reference.referenceEnd ≤ max s reference.referenceStart
    · rw [if_pos h₁]
      split_ifs with h₂
      · exact ih hx hxy hheld hheldy
      · have hmore := le_addReference (hx.trans hxy) hheldy (not_le.mp h₂).le
        exact ih hx (hxy.trans hmore) hheld held_addReference
    · have h₂ : ¬ min e₂ reference.referenceEnd ≤ max s reference.referenceStart :=
        fun h => h₁ ((min_le_min_right _ he).trans h)
      rw [if_neg h₁, if_neg h₂]
      exact ih (hx.trans (le_addReference hx hheld (not_le.mp h₁).le))
        (addReference_mono hx hxy (not_le.mp h₁).le he) held_addReference held_addReference

theorem icmaLoop_filter : icmaLoop s e references c x =
    icmaLoop s e
      (references.filter fun r => max s r.referenceStart < min e r.referenceEnd) c x := by
  induction references generalizing c x with
  | nil => rfl
  | cons reference rest ih =>
    by_cases hempty : min e reference.referenceEnd ≤ max s reference.referenceStart
    · rw [filter_cons_of_neg (by rw [decide_eq_true_iff]; exact not_lt.mpr hempty), icmaLoop,
        if_pos hempty, ih]
    · rw [filter_cons_of_pos (by rw [decide_eq_true_iff]; exact not_le.mp hempty)]
      simp only [icmaLoop, if_neg hempty]
      split_ifs
      · rfl
      · exact ih

end Icma

theorem actualActualIcmaFraction_eq_ok {inputs : DayCountInputs} {v : ℚ}
    (hlt : inputs.periodStart < inputs.periodEnd) :
    actualActualIcmaFraction inputs = .ok v ↔ CoversOnce inputs ∧ dayCountContext.round
      (icmaSum inputs.periodStart inputs.periodEnd (sortedPeriods inputs.icmaReferencePeriods) 0)
        = v := by
  unfold actualActualIcmaFraction
  rw [CoversOnce, ← tiles_sortedPeriods_iff hlt.le, icmaLoop_eq]
  split_ifs with hnil htiles
  · have huncovered : ¬ tiles IcmaReferencePeriod.referenceStart IcmaReferencePeriod.referenceEnd
        inputs.periodStart inputs.periodEnd (sortedPeriods inputs.icmaReferencePeriods)
        inputs.periodStart := by
      rw [hnil]
      simpa [sortedPeriods, tiles] using hlt.ne
    simp [huncovered]
  · simp [htiles]
  · simp [htiles]

theorem grows_actualActualIcmaFraction : Grows actualActualIcmaFraction := by
  intro i₁ i₂ hext hlt v₂ hv₂
  have hlt₂ : i₂.periodStart < i₂.periodEnd := hext.periodStart ▸ hlt.trans_le hext.periodEnd
  obtain ⟨hcovers, rfl⟩ := (actualActualIcmaFraction_eq_ok hlt₂).mp hv₂
  have hcovers₁ : CoversOnce i₁ := by
    intro day hday hday'
    rw [hext.icmaReferencePeriods]
    exact hcovers day (hext.periodStart ▸ hday) (hday'.trans_le hext.periodEnd)
  refine ⟨_, (actualActualIcmaFraction_eq_ok hlt).mpr ⟨hcovers₁, rfl⟩, ?_⟩
  rw [hext.icmaReferencePeriods, hext.periodStart]
  obtain ⟨hnonneg, hle⟩ := icmaSum_mono hext.periodEnd le_rfl le_rfl held_zero held_zero
  exact ⟨Context.round_nonneg _ hnonneg, Context.round_mono _ hnonneg hle⟩

/-- Periods that hold each day once and have the same start and end are the same, as long as they
have a part in the interval. -/
theorem CoversOnce.eq_of_key {inputs : DayCountInputs} (h : CoversOnce inputs)
    (ha : a ∈ inputs.icmaReferencePeriods)
    (hb : b ∈ inputs.icmaReferencePeriods)
    (hpart : max inputs.periodStart a.referenceStart < min inputs.periodEnd a.referenceEnd)
    (hkey : a.key = b.key) : a = b := by
  have hab : a.referenceStart = b.referenceStart ∧ a.referenceEnd = b.referenceEnd := by
    simpa [IcmaReferencePeriod.key] using hkey
  have hcov : Covers IcmaReferencePeriod.referenceStart IcmaReferencePeriod.referenceEnd a
      (max inputs.periodStart a.referenceStart) :=
    ⟨le_max_right _ _, hpart.trans_le (min_le_right _ _)⟩
  have hcov' : Covers IcmaReferencePeriod.referenceStart IcmaReferencePeriod.referenceEnd b
      (max inputs.periodStart a.referenceStart) := by
    unfold Covers at hcov ⊢
    rwa [← hab.1, ← hab.2]
  exact eq_of_countP_eq_one
    (h _ (le_max_left _ _) (hpart.trans_le (min_le_left _ _))) ha hb (by simpa using hcov)
    (by simpa using hcov')

theorem actualActualIcmaFraction_perm {i₁ i₂ : DayCountInputs}
    (hstart : i₁.periodStart = i₂.periodStart) (hend : i₁.periodEnd = i₂.periodEnd)
    (hperm : i₁.icmaReferencePeriods.Perm i₂.icmaReferencePeriods) :
    actualActualIcmaFraction i₁ = actualActualIcmaFraction i₂ := by
  have hsorted : (sortedPeriods i₁.icmaReferencePeriods).Perm
      (sortedPeriods i₂.icmaReferencePeriods) :=
    (sortedPeriods_perm _).trans (hperm.trans (sortedPeriods_perm _).symm)
  have hnil : i₁.icmaReferencePeriods = [] ↔ i₂.icmaReferencePeriods = [] := by
    rw [← length_eq_zero_iff, hperm.length_eq, length_eq_zero_iff]
  unfold actualActualIcmaFraction
  rw [← hstart, ← hend]
  simp only [hnil]
  split_ifs
  · rfl
  by_cases hcovers : CoversOnce i₁
  · -- the periods with a part in the interval are sorted in one way only
    have hparts : (sortedPeriods i₁.icmaReferencePeriods).filter
          (fun r => max i₁.periodStart r.referenceStart < min i₁.periodEnd r.referenceEnd) =
        (sortedPeriods i₂.icmaReferencePeriods).filter
          (fun r => max i₁.periodStart r.referenceStart < min i₁.periodEnd r.referenceEnd) := by
      refine List.Perm.eq_of_pairwise ?_ ((sortedPeriods_pairwise _).filter _)
        ((sortedPeriods_pairwise _).filter _) (hsorted.filter _)
      intro a b ha hb hab hba
      obtain ⟨ha, hpart⟩ := mem_filter.mp ha
      exact hcovers.eq_of_key ((sortedPeriods_perm _).mem_iff.mp ha)
        (hperm.mem_iff.mpr ((sortedPeriods_perm _).mem_iff.mp (mem_filter.mp hb).1))
        (of_decide_eq_true hpart) (le_antisymm hab hba)
    rw [icmaLoop_filter, hparts, ← icmaLoop_filter]
  · have hcovers₂ : ¬ CoversOnce i₂ := fun h => hcovers fun day hday hday' => by
      rw [cover_perm hperm]
      exact h day (hstart ▸ hday) (hend ▸ hday')
    rw [CoversOnce, ← tiles_sortedPeriods_iff i₁.start_le] at hcovers
    rw [CoversOnce, ← tiles_sortedPeriods_iff i₂.start_le, ← hstart, ← hend] at hcovers₂
    rw [icmaLoop_eq, icmaLoop_eq, if_neg hcovers, if_neg hcovers₂]

/-! ## Every convention -/

theorem resolveDayCountConvention_mem {convention : String} {version : ℤ}
    {definition : DayCountConventionDefinition}
    (h : resolveDayCountConvention convention version = .ok definition) :
    definition ∈ supportedDayCountConventions := by
  simp only [resolveDayCountConvention] at h
  split_ifs at h
  split at h
  · cases h
    exact mem_of_find?_eq_some ‹_›
  · cases h

theorem grows_definedYearFraction {definition : DayCountConventionDefinition}
    (h : definition ∈ supportedDayCountConventions) : Grows (definedYearFraction definition) := by
  simp only [supportedDayCountConventions, mem_cons, not_mem_nil, or_false] at h
  rcases h with rfl | rfl | rfl | rfl | rfl | rfl | rfl | rfl | rfl
  · exact grows_daysBetween.ratio 365
  · exact grows_daysBetween.ratio 360
  · exact grows_businessDayCount.ratio 252
  · exact (grows_thirty360UsDays false).ratio 360
  · exact (grows_thirty360UsDays true).ratio 360
  · exact grows_thirtyE360Days.ratio 360
  · exact grows_thirtyE360IsdaDays.ratio 360
  · exact grows_actualActualIsdaFraction
  · exact grows_actualActualIcmaFraction

theorem Extends.refl (i : DayCountInputs) : Extends i i := ⟨rfl, le_rfl, rfl, rfl, rfl⟩

variable {convention : String} {version : ℤ} {definition : DayCountConventionDefinition}
  {inputs : DayCountInputs}

theorem calculateYearFraction_of_empty
    (h : resolveDayCountConvention convention version = .ok definition)
    (hempty : inputs.periodStart = inputs.periodEnd) :
    calculateYearFraction convention version inputs = .ok 0 := by
  simp [calculateYearFraction, h, hempty, bind, Except.bind, pure, Except.pure]

theorem calculateYearFraction_of_lt
    (h : resolveDayCountConvention convention version = .ok definition)
    (hlt : inputs.periodStart < inputs.periodEnd) :
    calculateYearFraction convention version inputs = definedYearFraction definition inputs := by
  simp [calculateYearFraction, h, hlt.ne, bind, Except.bind]

theorem calculateYearFraction_nonneg {v : ℚ}
    (h : calculateYearFraction convention version inputs = .ok v) : 0 ≤ v := by
  obtain ⟨definition, hdefinition, -⟩ := except_bind_eq_ok.mp h
  rcases inputs.start_le.eq_or_lt with hempty | hlt
  · rw [calculateYearFraction_of_empty hdefinition hempty] at h
    cases h
    exact le_rfl
  · rw [calculateYearFraction_of_lt hdefinition hlt] at h
    obtain ⟨v₁, hv₁, hnonneg, hle⟩ := grows_definedYearFraction
      (resolveDayCountConvention_mem hdefinition) (Extends.refl inputs) hlt h
    exact hnonneg.trans hle

theorem definedYearFraction_icma (h : definition.convention = .actualActualIcma) :
    definedYearFraction definition inputs = actualActualIcmaFraction inputs := by
  simp [definedYearFraction, h]

/-- **Year fractions are not negative and grow with the end of the interval**, and the coupon-period
convention accepts the periods that, cut to the interval, tile it once, in whatever order they are
listed. -/
theorem year_fraction_monotone (convention : String) (version : ℤ) {i₁ i₂ : DayCountInputs}
    (hext : Extends i₁ i₂) :
    (∀ v₂, calculateYearFraction convention version i₂ = .ok v₂ →
      ∃ v₁, calculateYearFraction convention version i₁ = .ok v₁ ∧ 0 ≤ v₁ ∧ v₁ ≤ v₂ ∧ 0 ≤ v₂ ∧
        (i₁.periodStart = i₁.periodEnd → v₁ = 0)) ∧
    ∀ definition, resolveDayCountConvention convention version = .ok definition →
      definition.convention = .actualActualIcma →
      (∀ i : DayCountInputs, i.periodStart = i₁.periodStart → i.periodEnd = i₁.periodEnd →
        i.icmaReferencePeriods.Perm i₁.icmaReferencePeriods →
        calculateYearFraction convention version i = calculateYearFraction convention version i₁) ∧
      ((∃ v, calculateYearFraction convention version i₁ = .ok v) ↔ CoversOnce i₁) := by
  constructor
  · intro v₂ hv₂
    have hnonneg₂ := calculateYearFraction_nonneg hv₂
    obtain ⟨definition, hdefinition, -⟩ := except_bind_eq_ok.mp hv₂
    rcases i₁.start_le.eq_or_lt with hempty | hlt
    · exact ⟨0, calculateYearFraction_of_empty hdefinition hempty, le_rfl, hnonneg₂, hnonneg₂,
        fun _ => rfl⟩
    · have hlt₂ : i₂.periodStart < i₂.periodEnd := hext.periodStart ▸ hlt.trans_le hext.periodEnd
      rw [calculateYearFraction_of_lt hdefinition hlt₂] at hv₂
      obtain ⟨v₁, hv₁, hnonneg, hle⟩ := grows_definedYearFraction
        (resolveDayCountConvention_mem hdefinition) hext hlt hv₂
      exact ⟨v₁, (calculateYearFraction_of_lt hdefinition hlt).trans hv₁, hnonneg, hle, hnonneg₂,
        fun hempty => absurd hempty hlt.ne⟩
  · intro definition hdefinition hicma
    constructor
    · intro i hstart hend hperm
      rcases i₁.start_le.eq_or_lt with hempty | hlt
      · rw [calculateYearFraction_of_empty hdefinition hempty,
          calculateYearFraction_of_empty hdefinition (by rw [hstart, hend, hempty])]
      · rw [calculateYearFraction_of_lt hdefinition hlt,
          calculateYearFraction_of_lt hdefinition (by rwa [hstart, hend]),
          definedYearFraction_icma hicma, definedYearFraction_icma hicma]
        exact actualActualIcmaFraction_perm hstart hend hperm
    · rcases i₁.start_le.eq_or_lt with hempty | hlt
      · rw [calculateYearFraction_of_empty hdefinition hempty]
        refine ⟨fun _ day hday hday' => ?_, fun _ => ⟨0, rfl⟩⟩
        exact absurd (hday.trans_lt hday') (by rw [hempty]; exact lt_irrefl _)
      · rw [calculateYearFraction_of_lt hdefinition hlt, definedYearFraction_icma hicma]
        simp only [actualActualIcmaFraction_eq_ok hlt, exists_and_left, exists_eq', and_true]

def halfYears : List IcmaReferencePeriod :=
  [⟨⟨2024, 7, 1, by decide, by decide, by decide, by decide, by decide⟩,
      ⟨2025, 1, 1, by decide, by decide, CivilDate.january_le, by decide, by decide⟩, 2, by decide,
      by decide⟩,
   ⟨⟨2024, 1, 1, by decide, by decide, CivilDate.january_le, by decide, by decide⟩,
      ⟨2024, 7, 1, by decide, by decide, by decide, by decide, by decide⟩, 2, by decide, by decide⟩]

def couponInterval (month : ℕ) (hmonth : 2 < month ∧ month ≤ 12) : DayCountInputs where
  periodStart := ⟨2024, 2, 1, by decide, by decide, by decide, by decide, by decide⟩
  periodEnd := ⟨2024, month, 1, by decide, by omega, hmonth.2, by decide,
    (by decide : 1 ≤ 28).trans (le_daysInMonth _ _)⟩
  businessDayCalendar := none
  contractualTerminationDate := none
  icmaReferencePeriods := halfYears
  start_le := by
    apply le_of_lt
    rw [CivilDate.lt_iff_fields]
    exact .inr ⟨rfl, .inl hmonth.1⟩
  le_termination := by simp

theorem year_fraction_monotone_coupon :
    ∃ v₁ v₂, calculateYearFraction "act/act.icma" 1 (couponInterval 5 (by decide)) = .ok v₁ ∧
      calculateYearFraction "act/act.icma" 1 (couponInterval 10 (by decide)) = .ok v₂ ∧
      0 ≤ v₁ ∧ v₁ ≤ v₂ := by
  have hext : Extends (couponInterval 5 (by decide)) (couponInterval 10 (by decide)) :=
    ⟨rfl, by decide +kernel, rfl, rfl, rfl⟩
  have haccepted : (calculateYearFraction "act/act.icma" 1
      (couponInterval 10 (by decide))).toBool = true := by decide +kernel
  cases hv₂ : calculateYearFraction "act/act.icma" 1 (couponInterval 10 (by decide)) with
  | error raised =>
    rw [hv₂] at haccepted
    exact absurd haccepted (by simp [Except.toBool])
  | ok v₂ =>
    obtain ⟨v₁, hv₁, hnonneg, hle, -⟩ := (year_fraction_monotone "act/act.icma" 1 hext).1 v₂ hv₂
    exact ⟨v₁, v₂, hv₁, rfl, hnonneg, hle⟩

end LotusCore.DayCount
