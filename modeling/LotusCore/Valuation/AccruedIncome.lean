import LotusCore.Data.Tiling
import LotusCore.Transaction.Lineage
import LotusCore.Valuation.DayCount

/-!
# Ex-coupon segments

An accrued period and the full coupon period it belongs to are given as lists of segments, cut at
unrelated dates. When the holder has lost the next coupon, the accrued segments must be a prefix of
the full ones with the same terms.

* `validateExCouponEntitlement`: the boundary checks and the walk over both lists.
* `Walk`: what holds before each pass of the loop; **`prefixWalk_spec`**: from there it ends, and it
  accepts when the terms agree on every day that is still to come.
* **`ex_coupon_prefix_exact`**: the whole check.
-/

namespace LotusCore.AccruedIncome

open DayCount Exec Tiling List

inductive AccrualRateType
  | fixed
  | floatingSupplied
  deriving Repr, DecidableEq

/-- An interval over which principal, rate and day count are constant. -/
structure AccrualSegment where
  accrualStart : CivilDate
  accrualEnd : CivilDate
  currency : String
  signedAccrualPrincipal : ℚ
  annualEffectiveRate : ℚ
  rateType : AccrualRateType
  dayCountConvention : String
  dayCountConventionVersion : ℤ
  rateSource : FinancialSourceReference
  principalSource : FinancialSourceReference
  scheduleSource : FinancialSourceReference
  businessDayCalendar : Option BusinessDayCalendar
  contractualTerminationDate : Option CivilDate
  icmaReferencePeriods : List IcmaReferencePeriod
  start_lt : accrualStart < accrualEnd
  currency_nonblank : strip currency ≠ ""
  convention_nonblank : strip dayCountConvention ≠ ""
  version_pos : 1 ≤ dayCountConventionVersion

/-- The loss of the next coupon. -/
structure ExCouponEntitlement where
  exCouponDate : CivilDate
  nextCouponPaymentDate : CivilDate
  fullCouponSegments : List AccrualSegment
  ex_lt : exCouponDate < nextCouponPaymentDate
  nonempty : fullCouponSegments ≠ []

/-- The facts of a segment that two segments over one day must share. -/
structure SegmentTerms where
  currency : String
  signedAccrualPrincipal : ℚ
  annualEffectiveRate : ℚ
  rateType : AccrualRateType
  dayCountConvention : String
  dayCountConventionVersion : ℤ
  rateSource : FinancialSourceReference
  principalSource : FinancialSourceReference
  scheduleSource : FinancialSourceReference
  businessDayCalendar : Option BusinessDayCalendar
  contractualTerminationDate : Option CivilDate
  icmaReferencePeriods : List IcmaReferencePeriod
  deriving DecidableEq

def segmentTerms (segment : AccrualSegment) : SegmentTerms where
  currency := upper (strip segment.currency)
  signedAccrualPrincipal := segment.signedAccrualPrincipal
  annualEffectiveRate := segment.annualEffectiveRate
  rateType := segment.rateType
  dayCountConvention := upper (strip segment.dayCountConvention)
  dayCountConventionVersion := segment.dayCountConventionVersion
  rateSource := segment.rateSource
  principalSource := segment.principalSource
  scheduleSource := segment.scheduleSource
  businessDayCalendar := segment.businessDayCalendar
  contractualTerminationDate := segment.contractualTerminationDate
  icmaReferencePeriods := segment.icmaReferencePeriods

/-! ## The checks -/

/-- The loop of `_validate_contiguous_segments` after the first segment. -/
def contiguousAfter : AccrualSegment → List AccrualSegment → Except Raised Unit
  | _, [] => .ok ()
  | previous, current :: rest =>
    if current.accrualStart ≠ previous.accrualEnd then
      let relation := if current.accrualStart < previous.accrualEnd then "overlap" else "gap"
      .error (.valueError ("accrual segments contain a " ++ relation ++ " between " ++
        previous.accrualEnd.isoformat ++ " and " ++ current.accrualStart.isoformat))
    else contiguousAfter current rest

def validateContiguousSegments : List AccrualSegment → Except Raised Unit
  | [] => .error (.runtimeError "tuple index out of range")
  | previous :: rest => contiguousAfter previous rest

/-- The checks of `_validate_ex_coupon_entitlement` before the walk. -/
def validateExCouponBoundaries (accrued full : List AccrualSegment)
    (entitlement : ExCouponEntitlement) (currency : String) : Except Raised Unit := do
  validateContiguousSegments full
  refuseIf (full.any fun segment => upper (strip segment.currency) != currency)
    "full coupon and accrued segments must use one currency"
  match accrued.head?, accrued.getLast?, full.head?, full.getLast? with
  | some firstAccrued, some lastAccrued, some firstFull, some lastFull =>
    let settlementDate := lastAccrued.accrualEnd
    refuseIf (settlementDate ≤ entitlement.exCouponDate)
      "ex-coupon treatment requires settlement after ex_coupon_date"
    refuseIf (entitlement.nextCouponPaymentDate ≤ settlementDate)
      "ex-coupon treatment requires settlement before next_coupon_payment_date"
    refuseIf (firstFull.accrualStart ≠ firstAccrued.accrualStart)
      "full coupon and accrued segments must share the coupon-period start"
    refuseIf (lastFull.accrualEnd ≠ entitlement.nextCouponPaymentDate)
      "full coupon segments must end on next_coupon_payment_date"
  | _, _, _, _ => .error (.runtimeError "tuple index out of range")

/-- The two nested loops over the accrued segments and the days of each, with the full segments from
`full_index` on. One unit of fuel is one pass of either loop; nothing is returned while the loops
still run. -/
def prefixWalk : ℕ → List AccrualSegment → CivilDate → List AccrualSegment →
    Option (Except Raised Unit)
  | 0, _, _, _ => none
  | _ + 1, [], _, _ => some (.ok ())
  | fuel + 1, accrued :: rest, cursor, fulls =>
    if cursor < accrued.accrualEnd then
      match fulls.dropWhile (·.accrualEnd ≤ cursor) with
      | [] => some (.error (.valueError "accrued segments must be covered by full coupon segments"))
      | full :: later =>
        if cursor < full.accrualStart ∨ segmentTerms accrued ≠ segmentTerms full then
          some (.error (.valueError
            "accrued segments must be an economic prefix of full coupon segments"))
        else
          prefixWalk fuel (accrued :: rest) (min accrued.accrualEnd full.accrualEnd) (full :: later)
    else
      -- the next accrued segment sets the cursor to its own start
      prefixWalk fuel rest ((rest.head?.map (·.accrualStart)).getD cursor) fulls

def validateAccruedPrefixMatchesFullCoupon (fuel : ℕ) (accrued full : List AccrualSegment) :
    Option (Except Raised Unit) :=
  match accrued with
  | [] =>
    prefixWalk fuel [] ⟨1, 1, 1, le_rfl, le_rfl, CivilDate.january_le, le_rfl, firstDay_le 1 1⟩ full
  | first :: rest => prefixWalk fuel (first :: rest) first.accrualStart full

def validateExCouponEntitlement (fuel : ℕ) (accrued full : List AccrualSegment)
    (entitlement : ExCouponEntitlement) (currency : String) : Option (Except Raised Unit) :=
  match validateExCouponBoundaries accrued full entitlement currency with
  | .error raised => some (.error raised)
  | .ok () => validateAccruedPrefixMatchesFullCoupon fuel accrued full

/-! ## What the checks establish -/

abbrev Segments (l : List AccrualSegment) : Prop :=
  Contiguous AccrualSegment.accrualStart AccrualSegment.accrualEnd l

abbrev HoldsDay (segment : AccrualSegment) (day : CivilDate) : Prop :=
  Covers AccrualSegment.accrualStart AccrualSegment.accrualEnd segment day

theorem contiguousAfter_eq_ok {previous : AccrualSegment} {rest : List AccrualSegment} :
    contiguousAfter previous rest = .ok () ↔
      (previous :: rest).IsChain fun a b => b.accrualStart = a.accrualEnd := by
  induction rest generalizing previous with
  | nil => simp [contiguousAfter]
  | cons current rest ih =>
    rw [contiguousAfter, isChain_cons_cons]
    split_ifs with hgap
    · simp [hgap]
    · rw [ih]
      simp [not_not.mp hgap]

theorem validateContiguousSegments_eq_ok {l : List AccrualSegment} :
    validateContiguousSegments l = .ok () ↔ l ≠ [] ∧ Segments l := by
  cases l with
  | nil => simp [validateContiguousSegments]
  | cons first rest =>
    rw [validateContiguousSegments, contiguousAfter_eq_ok]
    simp only [ne_eq, reduceCtorEq, not_false_eq_true, true_and, Contiguous]
    exact ⟨fun h => ⟨h, fun a _ => a.start_lt⟩, And.left⟩

/-- Lists that pass the checks: each follows itself, they start together and the full one ends
later. -/
structure Bounded (accrued full : List AccrualSegment) : Prop where
  accrued_segments : Segments accrued
  full_segments : Segments full
  exists_ends : ∃ firstAccrued lastAccrued firstFull lastFull,
    accrued.head? = some firstAccrued ∧ accrued.getLast? = some lastAccrued ∧
    full.head? = some firstFull ∧ full.getLast? = some lastFull ∧
    firstFull.accrualStart = firstAccrued.accrualStart ∧
    lastAccrued.accrualEnd < lastFull.accrualEnd

theorem bounded_of_checks {accrued full : List AccrualSegment} {entitlement : ExCouponEntitlement}
    {currency : String} (haccrued : validateContiguousSegments accrued = .ok ())
    (hchecks : validateExCouponBoundaries accrued full entitlement currency = .ok ()) :
    Bounded accrued full := by
  obtain ⟨hfull, hrest⟩ := except_seq_eq_ok.mp hchecks
  obtain ⟨-, hrest⟩ := except_seq_eq_ok.mp hrest
  refine ⟨(validateContiguousSegments_eq_ok.mp haccrued).2,
    (validateContiguousSegments_eq_ok.mp hfull).2, ?_⟩
  split at hrest
  · obtain ⟨-, hrest⟩ := except_seq_eq_ok.mp hrest
    obtain ⟨hbefore, hrest⟩ := except_seq_eq_ok.mp hrest
    obtain ⟨hstart, hend⟩ := except_seq_eq_ok.mp hrest
    simp only [refuseIf_eq_ok, not_not, not_le] at hbefore hstart hend
    exact ⟨_, _, _, _, ‹_›, ‹_›, ‹_›, ‹_›, hstart, hend ▸ hbefore⟩
  · cases hrest

/-! ## The walk -/

/-- What holds before each pass of the loops. -/
structure Walk (accrued : List AccrualSegment) (cursor : CivilDate)
    (fulls : List AccrualSegment) : Prop where
  accrued_segments : Segments accrued
  full_segments : Segments fulls
  cursor_mem : ∀ a ∈ accrued.head?, a.accrualStart ≤ cursor ∧ cursor ≤ a.accrualEnd
  covered : ∀ a ∈ accrued, ∀ day, cursor ≤ day → day < a.accrualEnd → ∃ f ∈ fulls, HoldsDay f day

/-- The terms agree on every day from the cursor on. -/
def Agrees (accrued : List AccrualSegment) (cursor : CivilDate)
    (fulls : List AccrualSegment) : Prop :=
  ∀ a ∈ accrued, ∀ f ∈ fulls, ∀ day, cursor ≤ day → HoldsDay a day → HoldsDay f day →
    segmentTerms a = segmentTerms f

/-- The passes that can still come: one for each full segment, two for each accrued one. -/
def passesLeft (accrued : List AccrualSegment) (cursor : CivilDate)
    (fulls : List AccrualSegment) : ℕ :=
  (fulls.dropWhile (·.accrualEnd ≤ cursor)).length +
    match accrued with
    | [] => 0
    | a :: rest => 2 * rest.length + if cursor < a.accrualEnd then 2 else 1

section Steps

variable {a f : AccrualSegment} {rest fulls later : List AccrualSegment} {c : CivilDate}

theorem Walk.next_cursor (h : Walk (a :: rest) c fulls) (hdone : ¬ c < a.accrualEnd) :
    (rest.head?.map (·.accrualStart)).getD c = c := by
  have hc : c = a.accrualEnd := le_antisymm (h.cursor_mem a rfl).2 (not_lt.mp hdone)
  cases rest with
  | nil => rfl
  | cons b rest =>
    have hb : b.accrualStart = a.accrualEnd := (isChain_cons_cons.mp h.accrued_segments.1).1
    exact hb.trans hc.symm

theorem Walk.next (h : Walk (a :: rest) c fulls) (hdone : ¬ c < a.accrualEnd) :
    Walk rest c fulls where
  accrued_segments := h.accrued_segments.tail
  full_segments := h.full_segments
  cursor_mem := by
    have hc := h.next_cursor hdone
    cases rest with
    | nil => simp
    | cons b rest =>
      rintro _ ⟨⟩
      have hb : b.accrualStart = c := hc
      exact ⟨hb.le, hb.ge.trans b.start_lt.le⟩
  covered := fun b hb => h.covered b (mem_cons_of_mem _ hb)

theorem agrees_next (hdone : ¬ c < a.accrualEnd) :
    Agrees (a :: rest) c fulls ↔ Agrees rest c fulls := by
  constructor
  · exact fun h b hb => h b (mem_cons_of_mem _ hb)
  · intro h b hb f hf day hday hcov
    rcases mem_cons.mp hb with rfl | hb
    · exact absurd (hday.trans_lt hcov.2) hdone
    · exact h b hb f hf day hday hcov

theorem Walk.exists_full (h : Walk (a :: rest) c fulls) (hopen : c < a.accrualEnd) :
    ∃ full later, fulls.dropWhile (·.accrualEnd ≤ c) = full :: later ∧ HoldsDay full c := by
  obtain ⟨full, hmem, hcov⟩ := h.covered a mem_cons_self c le_rfl hopen
  obtain ⟨later, hlater⟩ := h.full_segments.dropWhile_of_covers hmem hcov
  exact ⟨full, later, hlater, hcov⟩

theorem Walk.advance (h : Walk (a :: rest) c fulls) (hopen : c < a.accrualEnd)
    (hdrop : fulls.dropWhile (·.accrualEnd ≤ c) = f :: later) (hcov : HoldsDay f c) :
    Walk (a :: rest) (min a.accrualEnd f.accrualEnd) (f :: later) where
  accrued_segments := h.accrued_segments
  full_segments := hdrop ▸ h.full_segments.dropWhile _
  cursor_mem := by
    rintro _ ⟨⟩
    exact ⟨(h.cursor_mem a rfl).1.trans (le_min hopen.le hcov.2.le), min_le_left _ _⟩
  covered := by
    intro b hb day hday hday'
    have hcday : c ≤ day := (le_min hopen.le hcov.2.le).trans hday
    obtain ⟨g, hg, hgcov⟩ := h.covered b hb day hcday hday'
    exact ⟨g, hdrop ▸ mem_dropWhile_of_covers hg hcday hgcov, hgcov⟩

theorem Walk.agrees_advance (h : Walk (a :: rest) c fulls) (hopen : c < a.accrualEnd)
    (hdrop : fulls.dropWhile (·.accrualEnd ≤ c) = f :: later) (hcov : HoldsDay f c) :
    Agrees (a :: rest) c fulls ↔ segmentTerms a = segmentTerms f ∧
      Agrees (a :: rest) (min a.accrualEnd f.accrualEnd) (f :: later) := by
  have hsub : ∀ g ∈ f :: later, g ∈ fulls := by
    intro g hg
    rw [← hdrop] at hg
    exact (dropWhile_sublist _).subset hg
  have hf : f ∈ fulls := hsub f mem_cons_self
  have ha : HoldsDay a c := ⟨(h.cursor_mem a rfl).1, hopen⟩
  have hcut : c ≤ min a.accrualEnd f.accrualEnd := le_min hopen.le hcov.2.le
  constructor
  · exact fun hagree => ⟨hagree a mem_cons_self f hf c le_rfl ha hcov,
      fun b hb g hg day hday => hagree b hb g (hsub g hg) day (hcut.trans hday)⟩
  · rintro ⟨hterms, hagree⟩ b hb g hg day hday hbcov hgcov
    rcases lt_or_ge day (min a.accrualEnd f.accrualEnd) with hbefore | hafter
    · -- before the next cut both segments are the ones just compared
      have haday : HoldsDay a day := ⟨ha.1.trans hday, hbefore.trans_le (min_le_left _ _)⟩
      have hfday : HoldsDay f day := ⟨hcov.1.trans hday, hbefore.trans_le (min_le_right _ _)⟩
      rw [h.accrued_segments.eq_of_covers hb mem_cons_self hbcov haday,
        h.full_segments.eq_of_covers hg hf hgcov hfday, hterms]
    · exact hagree b hb g (hdrop ▸ mem_dropWhile_of_covers hg hday hgcov) day hafter hbcov hgcov

theorem passesLeft_next (hdone : ¬ c < a.accrualEnd) :
    passesLeft rest c fulls < passesLeft (a :: rest) c fulls := by
  simp only [passesLeft, if_neg hdone]
  cases rest with
  | nil => simp
  | cons b rest =>
    simp only [length_cons]
    split_ifs <;> omega

theorem passesLeft_advance (hopen : c < a.accrualEnd)
    (hdrop : fulls.dropWhile (·.accrualEnd ≤ c) = f :: later) :
    passesLeft (a :: rest) (min a.accrualEnd f.accrualEnd) (f :: later) <
      passesLeft (a :: rest) c fulls := by
  simp only [passesLeft, hdrop, if_pos hopen]
  rcases le_or_gt f.accrualEnd (min a.accrualEnd f.accrualEnd) with hfull | hfull
  · -- the full segment is used up
    rw [dropWhile_cons_of_pos (by simpa using hfull)]
    have hlater := (dropWhile_sublist (l := later)
      fun g => g.accrualEnd ≤ min a.accrualEnd f.accrualEnd).length_le
    simp only [length_cons]
    split_ifs <;> omega
  · -- the accrued segment is used up
    have hacc : ¬ min a.accrualEnd f.accrualEnd < a.accrualEnd := by
      rcases min_choice a.accrualEnd f.accrualEnd with hmin | hmin
      · rw [hmin]
        exact lt_irrefl _
      · rw [hmin] at hfull
        exact absurd hfull (lt_irrefl _)
    rw [dropWhile_cons_of_neg (by simpa using hfull), if_neg hacc]
    omega

end Steps

/-- The loops end within the passes left, and accept when the terms agree from the cursor on. -/
theorem prefixWalk_spec {fuel : ℕ} {accrued fulls : List AccrualSegment} {c : CivilDate}
    (h : Walk accrued c fulls) (hfuel : passesLeft accrued c fulls < fuel) :
    ∃ result, prefixWalk fuel accrued c fulls = some result ∧
      (result = .ok () ↔ Agrees accrued c fulls) := by
  induction fuel generalizing accrued c fulls with
  | zero => exact absurd hfuel (Nat.not_lt_zero _)
  | succ fuel ih =>
    cases accrued with
    | nil => exact ⟨.ok (), rfl, by simp [Agrees]⟩
    | cons a rest =>
      rw [prefixWalk]
      by_cases hopen : c < a.accrualEnd
      · obtain ⟨f, later, hdrop, hcov⟩ := h.exists_full hopen
        rw [if_pos hopen, hdrop, h.agrees_advance hopen hdrop hcov]
        dsimp only
        by_cases hterms : segmentTerms a = segmentTerms f
        · rw [if_neg (by simp [hterms, hcov.1])]
          have hless : passesLeft (a :: rest) _ _ < passesLeft (a :: rest) c fulls :=
            passesLeft_advance hopen hdrop
          obtain ⟨result, hresult, hiff⟩ := ih (h.advance hopen hdrop hcov) (by omega)
          exact ⟨result, hresult, by rw [hiff]; exact (and_iff_right hterms).symm⟩
        · rw [if_pos (.inr hterms)]
          exact ⟨_, rfl, by simp [hterms]⟩
      · have hc := h.next_cursor hopen
        have hless : passesLeft rest c fulls < _ := passesLeft_next hopen
        rw [if_neg hopen, hc, agrees_next hopen]
        exact ih (h.next hopen) (by omega)

theorem Bounded.exists_full {accrued full : List AccrualSegment} (h : Bounded accrued full)
    {first a : AccrualSegment} {day : CivilDate} (hfirst : accrued.head? = some first)
    (ha : a ∈ accrued) (hday : first.accrualStart ≤ day) (hday' : day < a.accrualEnd) :
    ∃ f ∈ full, HoldsDay f day := by
  obtain ⟨x, y, u, v, hx, hy, hu, hv, hstart, hend⟩ := h.exists_ends
  obtain rfl : x = first := Option.some.inj (hx.symm.trans hfirst)
  exact h.full_segments.exists_covers hu hv (hstart.trans_le hday)
    (hday'.trans ((h.accrued_segments.le_last hy ha).trans_lt hend))

theorem Bounded.walk {first : AccrualSegment} {rest full : List AccrualSegment}
    (h : Bounded (first :: rest) full) : Walk (first :: rest) first.accrualStart full where
  accrued_segments := h.accrued_segments
  full_segments := h.full_segments
  cursor_mem := by
    rintro _ ⟨⟩
    exact ⟨le_rfl, first.start_lt.le⟩
  covered := fun _ ha _ hday hday' => h.exists_full rfl ha hday hday'

theorem passesLeft_le {first : AccrualSegment} {rest full : List AccrualSegment} {c : CivilDate} :
    passesLeft (first :: rest) c full ≤ full.length + 2 * (first :: rest).length := by
  have hdrop := (dropWhile_sublist (l := full) fun g => g.accrualEnd ≤ c).length_le
  simp only [passesLeft, length_cons]
  split_ifs <;> omega

/-- **The ex-coupon prefix check is exact.** On lists that pass the contiguity and boundary checks
its loops end within two passes for each accrued segment and one for each full segment, each day of
the accrued period is held by one segment of either list, and the lists are accepted when these two
have the same terms on every day. -/
theorem ex_coupon_prefix_exact {accrued full : List AccrualSegment}
    {entitlement : ExCouponEntitlement} {currency : String}
    (haccrued : validateContiguousSegments accrued = .ok ())
    (hchecks : validateExCouponBoundaries accrued full entitlement currency = .ok ()) :
    ∃ first last, accrued.head? = some first ∧ accrued.getLast? = some last ∧
      (∀ day, first.accrualStart ≤ day → day < last.accrualEnd →
        (∃! a, a ∈ accrued ∧ HoldsDay a day) ∧ ∃! f, f ∈ full ∧ HoldsDay f day) ∧
      ∃ result, validateExCouponEntitlement (full.length + 2 * accrued.length + 1) accrued full
          entitlement currency = some result ∧
        (result = .ok () ↔ ∀ day, first.accrualStart ≤ day → day < last.accrualEnd →
          ∀ a ∈ accrued, HoldsDay a day → ∀ f ∈ full, HoldsDay f day →
            segmentTerms a = segmentTerms f) := by
  have hbounded := bounded_of_checks haccrued hchecks
  obtain ⟨first, last, -, -, hfirst, hlast, -⟩ := hbounded.exists_ends
  refine ⟨first, last, hfirst, hlast, fun day hday hday' => ?_, ?_⟩
  · obtain ⟨a, ha, hacov⟩ := hbounded.accrued_segments.exists_covers hfirst hlast hday hday'
    obtain ⟨f, hf, hfcov⟩ := hbounded.exists_full hfirst ha hday hacov.2
    exact ⟨⟨a, ⟨ha, hacov⟩, fun b hb => hbounded.accrued_segments.eq_of_covers hb.1 ha hb.2 hacov⟩,
      f, ⟨hf, hfcov⟩, fun g hg => hbounded.full_segments.eq_of_covers hg.1 hf hg.2 hfcov⟩
  · cases accrued with
    | nil => cases hfirst
    | cons a rest =>
      obtain rfl : a = first := Option.some.inj hfirst
      obtain ⟨result, hresult, hiff⟩ :=
        prefixWalk_spec hbounded.walk (Nat.lt_succ_of_le passesLeft_le)
      refine ⟨result, ?_, hiff.trans ?_⟩
      · rw [validateExCouponEntitlement, hchecks]
        exact hresult
      · constructor
        · exact fun h day hday _ b hb hbcov f hf => h b hb f hf day hday hbcov
        · intro h b hb f hf day hday hbcov hfcov
          have hlt := hbcov.2.trans_le (hbounded.accrued_segments.le_last hlast hb)
          exact h day hday hlt b hb hbcov f hf hfcov

def monthStart (month : ℕ) (h : 1 ≤ month ∧ month ≤ 12) : CivilDate where
  year := 2024
  month := month
  day := 1
  year_pos := Nat.le_add_left 1 2023
  month_pos := h.1
  month_le := h.2
  day_pos := CivilDate.firstDay_pos
  day_le := firstDay_le 2024 month

/-- The evidence for the terms of a bond. -/
def bondRecord : FinancialSourceReference where
  sourceSystem := "market"
  sourceRecordId := "bond"
  sourceRevision := "1"
  sourceContentHash := "89abcdef0123456789abcdef0123456789abcdef0123456789abcdef01234567"
  observedAt := 0
  nonblank := by decide +kernel
  digest := by decide +kernel

/-- Whole months of a bond with constant terms. -/
def bondSegment (start finish : ℕ) (h : 1 ≤ start ∧ start < finish ∧ finish ≤ 12) :
    AccrualSegment where
  accrualStart := monthStart start ⟨h.1, by omega⟩
  accrualEnd := monthStart finish ⟨by omega, h.2.2⟩
  currency := "usd"
  signedAccrualPrincipal := 1000
  annualEffectiveRate := 1 / 20
  rateType := .fixed
  dayCountConvention := "30E/360"
  dayCountConventionVersion := 1
  rateSource := bondRecord
  principalSource := bondRecord
  scheduleSource := bondRecord
  businessDayCalendar := none
  contractualTerminationDate := none
  icmaReferencePeriods := []
  start_lt := by
    rw [CivilDate.lt_iff_fields]
    exact .inr ⟨rfl, .inl h.2.1⟩
  currency_nonblank := by decide +kernel
  convention_nonblank := by decide +kernel
  version_pos := le_rfl

def julyCoupon : ExCouponEntitlement where
  exCouponDate := monthStart 5 (by decide)
  nextCouponPaymentDate := monthStart 7 (by decide)
  fullCouponSegments := [bondSegment 1 3 (by decide), bondSegment 3 7 (by decide)]
  ex_lt := by decide +kernel
  nonempty := by simp

theorem ex_coupon_prefix_exact_july :
    validateExCouponEntitlement 7 [bondSegment 1 2 (by decide), bondSegment 2 6 (by decide)]
      julyCoupon.fullCouponSegments julyCoupon "USD" = some (.ok ()) := by
  have haccrued : validateContiguousSegments
      [bondSegment 1 2 (by decide), bondSegment 2 6 (by decide)] = .ok () := by decide +kernel
  have hchecks : validateExCouponBoundaries
      [bondSegment 1 2 (by decide), bondSegment 2 6 (by decide)]
      julyCoupon.fullCouponSegments julyCoupon "USD" = .ok () := by decide +kernel
  obtain ⟨first, last, -, -, -, result, hresult, hiff⟩ := ex_coupon_prefix_exact haccrued hchecks
  rw [hiff.mpr] at hresult
  · exact hresult
  · intro day _ _ a ha _ f hf _
    have hterms : ∀ g ∈ [bondSegment 1 2 (by decide), bondSegment 2 6 (by decide)] ++
        julyCoupon.fullCouponSegments, segmentTerms g =
          segmentTerms (bondSegment 1 2 (by decide)) := by
      simp [julyCoupon, segmentTerms, bondSegment]
    rw [hterms a (mem_append_left _ ha), hterms f (mem_append_right _ hf)]

end LotusCore.AccruedIncome
