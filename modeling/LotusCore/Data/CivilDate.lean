import Mathlib.Data.Prod.Lex

/-!
# Civil dates

Dates of the proleptic Gregorian calendar as year, month and day, ordered by these three, with the
running number of each day. The year has no upper limit here.

* `daysOfYears_succ`: a year has 365 days, a leap year one more.
* **`CivilDate.ordinal_strictMono`**: a later date has a larger running number, so that differences
  of running numbers count days.
-/

namespace LotusCore

/-- `calendar.isleap`. -/
def isLeap (year : ℕ) : Bool :=
  year % 4 == 0 && (year % 100 != 0 || year % 400 == 0)

def daysInMonth (year month : ℕ) : ℕ :=
  if month = 2 then (if isLeap year then 29 else 28)
  else if month = 4 ∨ month = 6 ∨ month = 9 ∨ month = 11 then 30
  else 31

/-- A date of the calendar: an impossible day cannot be built. -/
structure CivilDate where
  year : ℕ
  month : ℕ
  day : ℕ
  year_pos : 1 ≤ year := by decide
  month_pos : 1 ≤ month := by decide
  month_le : month ≤ 12 := by decide
  day_pos : 1 ≤ day := by decide
  day_le : day ≤ daysInMonth year month := by decide
deriving DecidableEq

theorem daysInMonth_le (year month : ℕ) : daysInMonth year month ≤ 31 := by
  unfold daysInMonth
  split_ifs <;> omega

theorem le_daysInMonth (year month : ℕ) : 28 ≤ daysInMonth year month := by
  unfold daysInMonth
  split_ifs <;> omega

theorem firstDay_le (year month : ℕ) : 1 ≤ daysInMonth year month :=
  (by decide : 1 ≤ 28).trans (le_daysInMonth year month)

def daysOfMonths (year : ℕ) : ℕ → ℕ
  | 0 => 0
  | months + 1 => daysOfMonths year months + daysInMonth year (months + 1)

def daysOfYears (years : ℕ) : ℕ :=
  365 * years + years / 4 - years / 100 + years / 400

theorem daysOfMonths_mono (year : ℕ) : Monotone (daysOfMonths year) :=
  monotone_nat_of_le_succ fun _ => Nat.le_add_right _ _

theorem daysOfMonths_twelve (year : ℕ) :
    daysOfMonths year 12 = if isLeap year then 366 else 365 := by
  by_cases h : isLeap year = true <;> simp [daysOfMonths, daysInMonth, h]

theorem daysOfYears_succ (years : ℕ) :
    daysOfYears (years + 1) = daysOfYears years + daysOfMonths (years + 1) 12 := by
  rw [daysOfMonths_twelve]
  have hcenturies : years / 100 ≤ years / 4 := Nat.div_le_div_left (by decide) (by decide)
  have h4 : 100 ∣ years + 1 → 4 ∣ years + 1 := Nat.dvd_trans (by decide)
  have h100 : 400 ∣ years + 1 → 100 ∣ years + 1 := Nat.dvd_trans (by decide)
  have hleap : isLeap (years + 1) = true ↔
      4 ∣ years + 1 ∧ (¬ 100 ∣ years + 1 ∨ 400 ∣ years + 1) := by
    simp [isLeap, Nat.dvd_iff_mod_eq_zero]
  simp only [daysOfYears, Nat.succ_div, hleap]
  -- the three divisibilities decide how the three quotients move
  by_cases d4 : 4 ∣ years + 1 <;> by_cases d100 : 100 ∣ years + 1 <;>
    by_cases d400 : 400 ∣ years + 1 <;> simp_all <;> omega

theorem daysOfYears_mono : Monotone daysOfYears :=
  monotone_nat_of_le_succ fun years => by
    rw [daysOfYears_succ]
    exact Nat.le_add_right _ _

namespace CivilDate

/-- Year, month and day in the order of their weight. -/
def key (d : CivilDate) : ℕ ×ₗ ℕ ×ₗ ℕ :=
  toLex (d.year, toLex (d.month, d.day))

theorem key_injective : Function.Injective key := by
  rintro ⟨y, m, d⟩ ⟨y', m', d'⟩ h
  simp only [key, EmbeddingLike.apply_eq_iff_eq, Prod.mk.injEq] at h
  obtain ⟨rfl, rfl, rfl⟩ := h
  rfl

instance : LinearOrder CivilDate :=
  LinearOrder.lift' key key_injective

/-- `date.toordinal`: the running number of the day, 1 for the first day of year 1. -/
def ordinal (d : CivilDate) : ℕ :=
  daysOfYears (d.year - 1) + daysOfMonths d.year (d.month - 1) + d.day

theorem firstDay_pos : 1 ≤ 1 := le_rfl

theorem january_le : 1 ≤ 12 := by decide

def newYear (year : ℕ) (h : 1 ≤ year) : CivilDate where
  year := year
  month := 1
  day := 1
  year_pos := h
  month_pos := firstDay_pos
  month_le := january_le
  day_pos := firstDay_pos
  day_le := firstDay_le year 1

def isLastDayOfMonth (d : CivilDate) : Bool :=
  d.day == daysInMonth d.year d.month

def isLastDayOfFebruary (d : CivilDate) : Bool :=
  d.month == 2 && d.isLastDayOfMonth

/-- A number with leading zeros. -/
def padded (width n : ℕ) : String :=
  String.ofList (List.replicate (width - (toString n).length) '0') ++ toString n

def isoformat (d : CivilDate) : String :=
  padded 4 d.year ++ "-" ++ padded 2 d.month ++ "-" ++ padded 2 d.day

variable {a b : CivilDate}

theorem ext_fields (hy : a.year = b.year) (hm : a.month = b.month) (hd : a.day = b.day) : a = b :=
  key_injective (by rw [key, key, hy, hm, hd])

theorem lt_iff_fields : a < b ↔
    a.year < b.year ∨ a.year = b.year ∧
      (a.month < b.month ∨ a.month = b.month ∧ a.day < b.day) := by
  change key a < key b ↔ _
  rw [key, key, Prod.Lex.toLex_lt_toLex, Prod.Lex.toLex_lt_toLex]

theorem year_le_of_le (h : a ≤ b) : a.year ≤ b.year := by
  rcases h.eq_or_lt with rfl | h
  · exact le_rfl
  · rcases lt_iff_fields.mp h with h | ⟨h, -⟩
    · exact h.le
    · exact h.le

theorem day_lt_of_lt (h : a < b) (hy : a.year = b.year) (hm : a.month = b.month) :
    a.day < b.day := by
  rcases lt_iff_fields.mp h with h | ⟨-, h | ⟨-, h⟩⟩
  · exact absurd hy h.ne
  · exact absurd hm h.ne
  · exact h

theorem day_le_of_le (h : a ≤ b) (hy : a.year = b.year) (hm : a.month = b.month) :
    a.day ≤ b.day := by
  rcases h.eq_or_lt with rfl | h
  · exact le_rfl
  · exact (day_lt_of_lt h hy hm).le

theorem day_le_thirtyOne (d : CivilDate) : d.day ≤ 31 :=
  d.day_le.trans (daysInMonth_le _ _)

theorem daysOfMonths_add_day_le (d : CivilDate) {months : ℕ} (h : d.month ≤ months) :
    daysOfMonths d.year (d.month - 1) + d.day ≤ daysOfMonths d.year months := by
  have hmonth : d.month - 1 + 1 = d.month := Nat.sub_add_cancel d.month_pos
  calc daysOfMonths d.year (d.month - 1) + d.day
      ≤ daysOfMonths d.year (d.month - 1) + daysInMonth d.year (d.month - 1 + 1) := by
        rw [hmonth]
        exact Nat.add_le_add_left d.day_le _
    _ = daysOfMonths d.year (d.month - 1 + 1) := rfl
    _ ≤ daysOfMonths d.year months := daysOfMonths_mono _ (hmonth.trans_le h)

theorem ordinal_le_daysOfYears (d : CivilDate) {years : ℕ} (h : d.year ≤ years) :
    d.ordinal ≤ daysOfYears years := by
  have hyear : d.year - 1 + 1 = d.year := Nat.sub_add_cancel d.year_pos
  calc d.ordinal
      ≤ daysOfYears (d.year - 1) + daysOfMonths d.year 12 := by
        have := d.daysOfMonths_add_day_le d.month_le
        unfold ordinal
        omega
    _ = daysOfYears d.year := by
        conv_rhs => rw [← hyear, daysOfYears_succ, hyear]
    _ ≤ daysOfYears years := daysOfYears_mono h

theorem ordinal_strictMono : StrictMono ordinal := by
  intro a b h
  rcases lt_iff_fields.mp h with hyear | ⟨hyear, hmonth | ⟨hmonth, hday⟩⟩
  · have ha := a.ordinal_le_daysOfYears (Nat.le_sub_one_of_lt hyear)
    have hb := b.day_pos
    unfold ordinal at ha ⊢
    omega
  · have ha := a.daysOfMonths_add_day_le (Nat.le_sub_one_of_lt hmonth)
    have hb := b.day_pos
    unfold ordinal
    rw [hyear] at ha ⊢
    omega
  · unfold ordinal
    rw [hyear, hmonth]
    exact Nat.add_lt_add_left hday _

theorem ordinal_le_iff : a.ordinal ≤ b.ordinal ↔ a ≤ b := ordinal_strictMono.le_iff_le

theorem ordinal_lt_iff : a.ordinal < b.ordinal ↔ a < b := ordinal_strictMono.lt_iff_lt

/-- `(b - a).days`. -/
def daysBetween (a b : CivilDate) : ℤ := b.ordinal - a.ordinal

theorem daysBetween_nonneg (h : a ≤ b) : 0 ≤ daysBetween a b := by
  have := ordinal_le_iff.mpr h
  unfold daysBetween
  omega

theorem daysBetween_pos (h : a < b) : 0 < daysBetween a b := by
  have := ordinal_lt_iff.mpr h
  unfold daysBetween
  omega

theorem daysBetween_mono {a a' b b' : CivilDate} (ha : a' ≤ a) (hb : b ≤ b') :
    daysBetween a b ≤ daysBetween a' b' := by
  have h₁ := ordinal_le_iff.mpr ha
  have h₂ := ordinal_le_iff.mpr hb
  unfold daysBetween
  omega

theorem le_newYear_of_year_le {year : ℕ} (h : b.year ≤ year) :
    b ≤ newYear (year + 1) (Nat.le_add_left 1 year) :=
  (lt_iff_fields.mpr (.inl (Nat.lt_succ_of_le h))).le

theorem newYear_le_of_le_year {year : ℕ} {hyear : 1 ≤ year} (h : year ≤ b.year) :
    newYear year hyear ≤ b := by
  by_contra hlt
  rcases lt_iff_fields.mp (not_le.mp hlt) with h' | ⟨-, h' | ⟨-, h'⟩⟩
  · exact absurd (show b.year < year from h') (not_lt.mpr h)
  · exact absurd (show b.month < 1 from h') (not_lt.mpr b.month_pos)
  · exact absurd (show b.day < 1 from h') (not_lt.mpr b.day_pos)

example :
    (⟨2024, 3, 1, by decide, by decide, by decide, by decide, by decide⟩ : CivilDate).ordinal -
    (⟨2024, 2, 28, by decide, by decide, by decide, by decide, by decide⟩ : CivilDate).ordinal =
      2 := by
  decide

end CivilDate

end LotusCore
