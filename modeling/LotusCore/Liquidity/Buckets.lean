import LotusCore.Liquidity.Ladder

/-!
# Buckets and exact sums

The buckets of a ladder follow each other without a gap from the first day to the horizon, and as
long as every running sum is a storable amount or a few of them, the context of the ladder adds
without rounding.

* `contiguous_dateBuckets`, `Contiguous.mem_iff`, `Contiguous.pairwise`: the buckets cover the
  days of the ladder, each day once.
* `cashflowSum_eq_sum`: a sum whose running sums are exact.
* **`cumulative_buildLadderBuckets`**: what the ladder has come to at the end of a bucket, when the
  flows of every bucket are differences of one running balance.
-/

namespace LotusCore.Liquidity

open Decimal List

/-! ## Exact sums -/

/-- Amounts of ten decimals below this bound are exact in the context of the ladder. -/
theorem cashflowContext_round {x : ℚ} (hx : OnGrid 10 x) (hb : |x| < 10 ^ 40) :
    cashflowArithmeticContext.round x = x := by
  refine cashflowArithmeticContext.round_of_onGrid (d := 50) hx ?_ le_rfl ?_
  · have he : ((50 : ℕ) : ℤ) - ((10 : ℕ) : ℤ) = ((40 : ℕ) : ℤ) := by norm_num
    rw [he, zpow_natCast]
    exact hb
  · show defaultEmin - (((50 : ℕ) : ℤ) - 1) ≤ -((10 : ℕ) : ℤ)
    norm_num [defaultEmin]

theorem cashflowSum_eq_sum {l : List ℚ}
    (h : ∀ p, p <+: l → OnGrid 10 p.sum ∧ |p.sum| < 10 ^ 40) : cashflowSum l = l.sum := by
  induction l using List.reverseRecOn with
  | nil => rfl
  | append_singleton l a ih =>
    have hl := ih fun p hp => h p (hp.trans (prefix_append l [a]))
    obtain ⟨hgrid, hbound⟩ := h (l ++ [a]) prefix_rfl
    rw [sum_append, sum_singleton] at hgrid hbound ⊢
    rw [cashflowSum, foldl_append, foldl_cons, foldl_nil]
    change cashflowArithmeticContext.round (cashflowSum l + a) = _
    rw [hl, cashflowContext_round hgrid hbound]

/-! ## The days of the buckets -/

def Contiguous (lastDay : ℤ) : ℤ → List LadderDateBucket → Prop
  | firstDay, [] => firstDay = lastDay + 1
  | firstDay, b :: rest =>
    b.startDate = firstDay ∧ firstDay ≤ b.endDate ∧ b.endDate ≤ lastDay ∧
      Contiguous lastDay (b.endDate + 1) rest

section DateBucket

variable {asOfDate horizonDays first last : ℤ} {code : String}

theorem dateBucket_eq_none (h : horizonDays < first) :
    dateBucket asOfDate horizonDays code first last = none := if_pos h

theorem dateBucket_eq_some (hfirst : first ≤ horizonDays) (hlast : first ≤ last) :
    dateBucket asOfDate horizonDays code first last =
      some ⟨code, asOfDate + first, asOfDate + min last horizonDays⟩ := by
  have hmin : min (asOfDate + last) (asOfDate + horizonDays) = asOfDate + min last horizonDays := by
    omega
  rw [dateBucket, if_neg (not_lt.mpr hfirst), hmin, if_pos (by omega)]

/-- The buckets run from the first day to the horizon, which ends in one of the five candidates. -/
theorem contiguous_dateBuckets (h : 0 ≤ horizonDays) :
    Contiguous (asOfDate + horizonDays) asOfDate (dateBuckets asOfDate horizonDays) := by
  simp only [dateBuckets, filterMap_cons, filterMap_nil]
  rw [dateBucket_eq_some h le_rfl]
  rcases lt_or_ge horizonDays 1 with h1 | h1
  · rw [dateBucket_eq_none h1, dateBucket_eq_none (by omega), dateBucket_eq_none (by omega),
      dateBucket_eq_none (by omega)]
    simp only [Contiguous]
    omega
  rw [dateBucket_eq_some h1 le_rfl]
  rcases lt_or_ge horizonDays 2 with h2 | h2
  · rw [dateBucket_eq_none h2, dateBucket_eq_none (by omega), dateBucket_eq_none (by omega)]
    simp only [Contiguous]
    omega
  rw [dateBucket_eq_some h2 (by norm_num)]
  rcases lt_or_ge horizonDays 8 with h8 | h8
  · rw [dateBucket_eq_none h8, dateBucket_eq_none (by omega)]
    simp only [Contiguous]
    omega
  rw [dateBucket_eq_some h8 (by norm_num)]
  rcases lt_or_ge horizonDays 31 with h31 | h31
  · rw [dateBucket_eq_none h31]
    simp only [Contiguous]
    omega
  · rw [dateBucket_eq_some h31 h31]
    simp only [Contiguous]
    omega

end DateBucket

section Days

variable {lastDay firstDay d : ℤ} {l : List LadderDateBucket}

/-- Every day of the ladder lies in a bucket, and no other day does. -/
theorem Contiguous.mem_iff (h : Contiguous lastDay firstDay l) (hfirst : firstDay ≤ lastDay + 1) :
    (∃ b ∈ l, b.startDate ≤ d ∧ d ≤ b.endDate) ↔ firstDay ≤ d ∧ d ≤ lastDay := by
  induction l generalizing firstDay with
  | nil =>
    have heq : firstDay = lastDay + 1 := h
    simp only [not_mem_nil, false_and, exists_false, false_iff]
    omega
  | cons b rest ih =>
    obtain ⟨hstart, hend, hlast, hrest⟩ := h
    rw [exists_mem_cons_iff, ih hrest (by omega)]
    omega

theorem Contiguous.bounds (h : Contiguous lastDay firstDay l) :
    ∀ b ∈ l, firstDay ≤ b.startDate ∧ b.startDate ≤ b.endDate ∧ b.endDate ≤ lastDay := by
  induction l generalizing firstDay with
  | nil => simp
  | cons b rest ih =>
    obtain ⟨hstart, hend, hlast, hrest⟩ := h
    intro c hc
    rcases mem_cons.mp hc with rfl | hc
    · exact ⟨hstart.ge, hstart ▸ hend, hlast⟩
    · have := ih hrest c hc
      omega

theorem Contiguous.pairwise (h : Contiguous lastDay firstDay l) :
    l.Pairwise fun a b => a.endDate < b.startDate := by
  induction l generalizing firstDay with
  | nil => exact List.Pairwise.nil
  | cons b rest ih =>
    obtain ⟨hstart, hend, hlast, hrest⟩ := h
    refine pairwise_cons.mpr ⟨fun c hc => ?_, ih hrest⟩
    have := hrest.bounds c hc
    omega

end Days

/-! ## The cash a bucket comes to -/

section Cumulative

variable {booked projected : List (ℤ × ℚ)} {opening : Option ℚ} {balance : ℤ → ℚ}
  {lastDay firstDay : ℤ} {l : List LadderDateBucket}

theorem buildLadderBuckets_map {cumulative : Option ℚ} :
    (buildLadderBuckets opening booked projected cumulative l).map
        (fun b => (⟨b.bucketCode, b.startDate, b.endDate⟩ : LadderDateBucket)) = l := by
  induction l generalizing cumulative with
  | nil => rfl
  | cons b rest ih =>
    rw [buildLadderBuckets, map_cons, ih]

/-- **The cash at the end of a bucket.** When the flows of each bucket are what a running balance
moves by over its days, the ladder comes to its opening plus what the balance has moved by. -/
theorem cumulative_buildLadderBuckets {start : ℚ} (h : Contiguous lastDay firstDay l)
    (hflows : ∀ b ∈ l, cashflowArithmeticContext.round
      (sumSeries booked b + sumSeries projected b) = balance b.endDate - balance (b.startDate - 1))
    (hgrid : ∀ e, OnGrid 10 (start + (balance e - balance (firstDay - 1))))
    (hbound : ∀ e, |start + (balance e - balance (firstDay - 1))| < 10 ^ 40) :
    ∀ b ∈ buildLadderBuckets opening booked projected (some start) l,
      b.cumulativeCashAvailable = some (start + (balance b.endDate - balance (firstDay - 1))) := by
  induction l generalizing firstDay start with
  | nil => simp [buildLadderBuckets]
  | cons b rest ih =>
    obtain ⟨hstart, hend, hlast, hrest⟩ := h
    have hnet : cashflowArithmeticContext.round (start + cashflowArithmeticContext.round
        (sumSeries booked b + sumSeries projected b)) =
        start + (balance b.endDate - balance (firstDay - 1)) := by
      rw [hflows b (by simp), hstart]
      exact cashflowContext_round (hgrid _) (hbound _)
    -- what is left of the balance's way once the bucket is behind
    have hshift : ∀ e, start + (balance b.endDate - balance (firstDay - 1)) +
        (balance e - balance (b.endDate + 1 - 1)) =
      start + (balance e - balance (firstDay - 1)) := by
      intro e
      rw [add_sub_cancel_right]
      ring
    rw [buildLadderBuckets, Option.map_some, hnet]
    intro c hc
    rcases mem_cons.mp hc with rfl | hc
    · rfl
    · rw [ih hrest (fun c hc => hflows c (mem_cons_of_mem _ hc))
        (fun e => by rw [hshift]; exact hgrid e) (fun e => by rw [hshift]; exact hbound e) c hc,
        hshift]

end Cumulative

end LotusCore.Liquidity
