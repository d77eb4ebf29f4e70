import LotusCore.FixedIncome.Disposal

/-!
# Runs of disposals at amortized cost

The disposals of one lot in a row: each starts with the quantity the last one left and with the
carrying amount it carried forward.

* `OpenLot.disposeAll`: the run.
* **`amortized_disposals_conserve`**: what disposals consume up to the one that takes all of the
  open quantity is the opening carrying amount and the movements recognized on the then open
  quantity.
* `OpenLot.Near`: what a lot carries after some disposals is near its share of the scheduled cost.
* **`amortized_residual_nonneg`**: a disposal that leaves a share large enough for the roundings so
  far leaves nonnegative costs.
-/

namespace LotusCore

open Exec Decimal Ledger List

/-! ## Runs -/

/-- One disposal of a lot, at the rate its base cost is kept at. -/
structure BookDisposal where
  disposalDate : ℤ
  consumedQuantity : ℚ
  bookCostFxRateToBase : ℚ

/-- What is left of a lot between two disposals. -/
structure OpenLot where
  openQuantity : ℚ
  carried : Option CarriedLotBookCost

section Runs

variable (profile : LotAmortizedCostProfileVersion) (original : ℚ)

/-- One disposal, without what it carries forward. -/
def OpenLot.allocate (lot : OpenLot) (d : BookDisposal) : Except Raised RecognizedLotBookCost :=
  allocateRecognizedLotBookCost profile d.disposalDate original lot.openQuantity d.consumedQuantity
    d.bookCostFxRateToBase lot.carried

def OpenLot.disposeAll : OpenLot → List BookDisposal →
    Except Raised (List RecognizedLotBookCost × OpenLot)
  | lot, [] => .ok ([], lot)
  | lot, d :: rest => do
    let r ← lot.allocate profile original d
    let carried ← r.carryForward
    let (rs, last) ← OpenLot.disposeAll ⟨r.residualQuantity, carried⟩ rest
    .ok (r :: rs, last)

end Runs

/-- What the schedule recognized since the cost `previous` on the quantity open before `r`. -/
def RecognizedLotBookCost.movementLocal (previous r : RecognizedLotBookCost) : ℚ :=
  quantize 10 (workingShare
    (quantize 10 (workingRound (r.scheduledCostLocal - previous.scheduledCostLocal)))
    r.openQuantityBefore r.originalQuantity)

def RecognizedLotBookCost.movementBase (previous r : RecognizedLotBookCost) : ℚ :=
  extendedCost (previous.movementLocal r) r.bookCostFxRateToBase

variable {profile : LotAmortizedCostProfileVersion} {original : ℚ}

theorem OpenLot.allocate_allocated {lot : OpenLot} {d : BookDisposal} {r : RecognizedLotBookCost}
    (h : lot.allocate profile original d = .ok r) :
    r.Allocated profile d.disposalDate original lot.openQuantity d.consumedQuantity
      d.bookCostFxRateToBase lot.carried :=
  allocateRecognizedLotBookCost_allocated h

variable {lot last : OpenLot} {ds : List BookDisposal} {rs : List RecognizedLotBookCost}

theorem OpenLot.disposeAll_cons_eq_ok {d : BookDisposal}
    (h : lot.disposeAll profile original (d :: ds) = .ok (rs, last)) :
    ∃ r carried rest, lot.allocate profile original d = .ok r ∧ r.carryForward = .ok carried ∧
      OpenLot.disposeAll profile original ⟨r.residualQuantity, carried⟩ ds = .ok (rest, last) ∧
      rs = r :: rest := by
  obtain ⟨r, hr, h⟩ := except_bind_eq_ok.mp h
  obtain ⟨carried, hc, h⟩ := except_bind_eq_ok.mp h
  obtain ⟨⟨rest, last'⟩, hrest, h⟩ := except_bind_eq_ok.mp h
  cases h
  exact ⟨r, carried, rest, hr, hc, hrest, rfl⟩

/-! ## Conservation -/

/-- The carrying amount of the next disposal is what this one left and the movement since. -/
theorem RecognizedLotBookCost.Allocated.next_current {date date' : ℤ}
    {openBefore consumed fxRate consumed' fxRate' : ℚ}
    {carried carried' : Option CarriedLotBookCost} {r r' : RecognizedLotBookCost}
    (h : r.Allocated profile date original openBefore consumed fxRate carried)
    (hc : r.carryForward = .ok carried')
    (h' : r'.Allocated profile date' original r.residualQuantity consumed' fxRate' carried') :
    r'.currentCostLocal = r.residualCostLocal + r.movementLocal r' ∧
      r'.currentCostBase = r.residualCostBase + r.movementBase r' := by
  have hpos : 0 < r.residualQuantity := h'.valid.2.2.2.1
  have hcurrent := h'.current
  cases hcurrent with
  | opening hs => exact absurd (residualQuantity_of_carryForward hc) hpos.ne'
  | moved c movement hm hl hb =>
    obtain ⟨hcs, hcl, hcb⟩ := carryForward_eq_ok hc c rfl
    rw [hcl] at hl
    rw [hcb] at hb
    have hml : movement.localCost = r.movementLocal r' := by
      rw [hm.localCost, hcs, movementLocal, h'.openQuantityBefore, h'.originalQuantity]
    have hmb : movement.baseCost = r.movementBase r' := by
      rw [hm.baseCost, hml, movementBase, h'.bookRate]
    rw [← hml, ← hmb]
    exact ⟨((add_eq_ok h.residual_storable.1 hm.local_storable).mp hl).1,
      ((add_eq_ok h.residual_storable.2 hm.base_storable).mp hb).1⟩

/-- A run of disposals, each starting from what the last one left. -/
def Threads : List RecognizedLotBookCost → Prop :=
  List.IsChain fun r r' => r'.currentCostLocal = r.residualCostLocal + r.movementLocal r' ∧
    r'.currentCostBase = r.residualCostBase + r.movementBase r'

theorem OpenLot.disposeAll_balances (h : lot.disposeAll profile original ds = .ok (rs, last)) :
    (∀ r ∈ rs, r.consumedCostLocal + r.residualCostLocal = r.currentCostLocal ∧
      r.consumedCostBase + r.residualCostBase = r.currentCostBase) ∧ Threads rs := by
  induction ds generalizing lot rs with
  | nil =>
    cases h
    exact ⟨by simp, isChain_nil⟩
  | cons d ds ih =>
    obtain ⟨r, carried, rest, hr, hc, hrest, rfl⟩ := disposeAll_cons_eq_ok h
    have ha := allocate_allocated hr
    obtain ⟨hsteps, hthreads⟩ := ih hrest
    constructor
    · refine forall_mem_cons.mpr ⟨?_, hsteps⟩
      rw [ha.residualLocal_eq, ha.residualBase_eq]
      exact ⟨add_sub_cancel _ _, add_sub_cancel _ _⟩
    · cases ds with
      | nil => cases hrest; exact isChain_singleton _
      | cons d' ds =>
        obtain ⟨r', carried', rest', hr', -, -, rfl⟩ := disposeAll_cons_eq_ok hrest
        exact isChain_cons_cons.mpr ⟨ha.next_current hc (allocate_allocated hr'), hthreads⟩

theorem OpenLot.disposeAll_residual (h : lot.disposeAll profile original ds = .ok (rs, last)) :
    ∀ r ∈ rs, r.consumedQuantity = r.openQuantityBefore →
      r.residualCostLocal = 0 ∧ r.residualCostBase = 0 := by
  induction ds generalizing lot rs with
  | nil =>
    cases h
    simp
  | cons d ds ih =>
    obtain ⟨r, carried, rest, hr, -, hrest, rfl⟩ := disposeAll_cons_eq_ok h
    have ha := allocate_allocated hr
    refine forall_mem_cons.mpr ⟨?_, ih hrest⟩
    intro hwhole
    rw [ha.consumedQuantity, ha.openQuantityBefore] at hwhole
    exact ha.residual_of_whole hwhole

theorem Threads.sum_consumed {r last : RecognizedLotBookCost}
    (hsteps : ∀ x ∈ r :: rs, x.consumedCostLocal + x.residualCostLocal = x.currentCostLocal ∧
      x.consumedCostBase + x.residualCostBase = x.currentCostBase)
    (h : Threads (r :: rs)) (hlast : (r :: rs).getLast? = some last) :
    ((r :: rs).map (·.consumedCostLocal)).sum + last.residualCostLocal =
        r.currentCostLocal + (List.zipWith (·.movementLocal ·) (r :: rs) rs).sum ∧
      ((r :: rs).map (·.consumedCostBase)).sum + last.residualCostBase =
        r.currentCostBase + (List.zipWith (·.movementBase ·) (r :: rs) rs).sum := by
  induction rs generalizing r with
  | nil =>
    cases hlast
    obtain ⟨hl, hb⟩ := hsteps r (.head _)
    simp [hl, hb]
  | cons r' rs ih =>
    obtain ⟨hnext, hrest⟩ := isChain_cons_cons.mp h
    rw [List.getLast?_cons_cons] at hlast
    obtain ⟨ihl, ihb⟩ := ih (fun x hx => hsteps x (.tail _ hx)) hrest hlast
    obtain ⟨hl, hb⟩ := hsteps r (.head _)
    rw [hnext.1] at ihl
    rw [hnext.2] at ihb
    constructor
    · rw [map_cons, sum_cons, zipWith_cons_cons, sum_cons, ← hl]
      linarith
    · rw [map_cons, sum_cons, zipWith_cons_cons, sum_cons, ← hb]
      linarith

/-- **Amortized cost is conserved.** At every disposal the consumed and the residual cost are the
carrying amount, and the disposals of an exhausted lot consume its opening carrying amount and the
movements recognized later. -/
theorem amortized_disposals_conserve {lot last : OpenLot} {ds : List BookDisposal}
    {rs : List RecognizedLotBookCost}
    (h : lot.disposeAll profile original ds = .ok (rs, last)) :
    (∀ r ∈ rs, r.consumedCostLocal + r.residualCostLocal = r.currentCostLocal ∧
      r.consumedCostBase + r.residualCostBase = r.currentCostBase) ∧
    ∀ first ∈ rs.head?, ∀ final ∈ rs.getLast?, final.consumedQuantity = final.openQuantityBefore →
      (rs.map (·.consumedCostLocal)).sum =
          first.currentCostLocal + (List.zipWith (·.movementLocal ·) rs rs.tail).sum ∧
        (rs.map (·.consumedCostBase)).sum =
          first.currentCostBase + (List.zipWith (·.movementBase ·) rs rs.tail).sum := by
  obtain ⟨hsteps, hthreads⟩ := OpenLot.disposeAll_balances h
  refine ⟨hsteps, ?_⟩
  rintro first hfirst final hfinal hwhole
  obtain ⟨rest, rfl⟩ : ∃ rest, rs = first :: rest := by
    cases rs with
    | nil => cases hfirst
    | cons r rest => cases hfirst; exact ⟨rest, rfl⟩
  obtain ⟨hl, hb⟩ := hthreads.sum_consumed hsteps hfinal
  obtain ⟨hl0, hb0⟩ := OpenLot.disposeAll_residual h final (mem_of_getLast? hfinal) hwhole
  rw [hl0, add_zero] at hl
  rw [hb0, add_zero] at hb
  exact ⟨hl, hb⟩

/-- A note bought at 97 that accretes to 98 on day 10 and to 100 on day 20. -/
def accretingNote : LotAmortizedCostProfileVersion where
  profileId := "note"
  profileVersion := 1
  contentHash := ""
  effectiveDate := 0
  status := .active
  currency := some "USD"
  initialAmortizedCostLocal := some 97
  periods := [⟨0, 10, 97, 98, by norm_num, by norm_num, by norm_num⟩,
    ⟨10, 20, 98, 100, by norm_num, by norm_num, by norm_num⟩]
  initial_nonneg := by rintro _ ⟨⟩; norm_num
  active_initial _ := rfl
  active_periods _ := nofun
  periods_contiguous := by simp
  periods_begin := by rintro _ ⟨⟩; rfl
  nonactive h := absurd rfl h

theorem amortized_disposals_conserve_thirds :
    ∃ rs last, OpenLot.disposeAll accretingNote 3 ⟨3, none⟩ [⟨5, 1, 11 / 10⟩, ⟨12, 1, 11 / 10⟩,
        ⟨25, 1, 11 / 10⟩] = .ok (rs, last) ∧ rs.length = 3 ∧
      ∃ first ∈ rs.head?, ∃ final ∈ rs.getLast?,
        final.consumedQuantity = final.openQuantityBefore ∧
        (rs.map (·.consumedCostLocal)).sum =
          first.currentCostLocal + (List.zipWith (·.movementLocal ·) rs rs.tail).sum ∧
        (rs.map (·.consumedCostBase)).sum =
          first.currentCostBase + (List.zipWith (·.movementBase ·) rs rs.tail).sum := by
  have hrun : (OpenLot.disposeAll accretingNote 3 ⟨3, none⟩ [⟨5, 1, 11 / 10⟩, ⟨12, 1, 11 / 10⟩,
      ⟨25, 1, 11 / 10⟩]).map
        (fun x => x.1.map fun r => (r.consumedQuantity, r.openQuantityBefore)) =
      .ok [(1, 3), (1, 2), (1, 1)] := by decide +kernel
  obtain ⟨⟨rs, last⟩, h, hmap⟩ := except_map_eq_ok.mp hrun
  obtain ⟨first, rs₁, rfl, -, hmap⟩ := map_eq_cons_iff.mp hmap
  obtain ⟨second, rs₂, rfl, -, hmap⟩ := map_eq_cons_iff.mp hmap
  obtain ⟨final, rs₃, rfl, hfinal, hmap⟩ := map_eq_cons_iff.mp hmap
  cases map_eq_nil_iff.mp hmap
  have hwhole : final.consumedQuantity = final.openQuantityBefore := by
    rw [(Prod.mk.inj hfinal).1, (Prod.mk.inj hfinal).2]
  exact ⟨_, last, h, rfl, first, rfl, final, rfl, hwhole,
    (amortized_disposals_conserve h).2 first rfl final rfl hwhole⟩

/-- All but a hundredth of the last decimal of one unit: no quantity is left, and nothing is carried
forward, but not all of the cost is consumed. -/
theorem amortized_disposals_exhaust_rounded :
    ∃ r, OpenLot.disposeAll accretingNote 1 ⟨1, none⟩ [⟨5, 1 - 1 / 10 ^ 11, 1⟩] =
        .ok ([r], ⟨0, none⟩) ∧
      r.residualQuantity = 0 ∧ r.currentCostLocal = 97 ∧ r.consumedCostLocal = 97 - 1 / 10 ^ 9 ∧
      r.currentCostBase = 97 ∧ r.consumedCostBase = 97 - 1 / 10 ^ 9 := by
  have hrun : (OpenLot.disposeAll accretingNote 1 ⟨1, none⟩ [⟨5, 1 - 1 / 10 ^ 11, 1⟩]).map
      (fun x => (x.2.openQuantity, x.2.carried.isNone, x.1.map fun r => [r.residualQuantity,
        r.currentCostLocal, r.consumedCostLocal, r.currentCostBase, r.consumedCostBase])) =
      .ok (0, true, [[0, 97, 97 - 1 / 10 ^ 9, 97, 97 - 1 / 10 ^ 9]]) := by decide +kernel
  obtain ⟨⟨rs, ⟨openQuantity, carried⟩⟩, h, hmap⟩ := except_map_eq_ok.mp hrun
  simp only [Prod.mk.injEq, Option.isNone_iff_eq_none] at hmap
  obtain ⟨rfl, rfl, hmap⟩ := hmap
  obtain ⟨r, rest, rfl, hr, hrest⟩ := map_eq_cons_iff.mp hmap
  cases map_eq_nil_iff.mp hrest
  simp only [List.cons.injEq, and_true] at hr
  exact ⟨r, h, hr⟩

/-! ## Rounding against the lot -/

/-- The costs of the schedule are ledger amounts. -/
structure LotAmortizedCostProfileVersion.Ledgered (profile : LotAmortizedCostProfileVersion) :
    Prop where
  initial : ∀ cost ∈ profile.initialAmortizedCostLocal, Storable cost
  periods : ∀ period ∈ profile.periods, Storable period.endAmortizedCostLocal

/-- The scheduled cost at a date. -/
def scheduledCost (profile : LotAmortizedCostProfileVersion) (date : ℤ) : ℚ :=
  (recognizedThrough date profile.periods
    (profile.initialAmortizedCostLocal.getD 0, profile.effectiveDate)).1

theorem scheduledCost_eq {date through : ℤ} {scheduled : ℚ}
    (h : recognizedCostLocal profile date = .ok (scheduled, through)) :
    scheduledCost profile date = scheduled := by
  unfold recognizedCostLocal at h
  unfold scheduledCost
  cases hi : profile.initialAmortizedCostLocal with
  | none => simp [hi] at h
  | some initial =>
    simp only [hi, Except.ok.injEq] at h
    rw [Option.getD_some, h]

theorem recognizedThrough_storable {date through : ℤ}
    {periods : List LotAmortizedCostPeriodLedgerEntry} {cost : ℚ} (hcost : Storable cost)
    (h : ∀ period ∈ periods, Storable period.endAmortizedCostLocal) :
    Storable (recognizedThrough date periods (cost, through)).1 := by
  induction periods generalizing cost through with
  | nil => exact hcost
  | cons period rest ih =>
    unfold recognizedThrough
    split_ifs with hopen
    · exact hcost
    · exact ih (h period (.head _)) fun p hp => h p (.tail _ hp)

theorem LotAmortizedCostProfileVersion.Ledgered.scheduledCost_storable (h : profile.Ledgered)
    (date : ℤ) : Storable (scheduledCost profile date) := by
  refine recognizedThrough_storable ?_ h.periods
  cases hi : profile.initialAmortizedCostLocal with
  | none => exact storable_zero
  | some initial => exact h.initial initial hi

/-- A share of a ledger amount is within one unit of the last decimal of the exact share, and its
base cost within one unit of each factor. -/
theorem LotBookCost.IsShare.near {cost : LotBookCost} {scheduled quantity fxRate : ℚ}
    (h : cost.IsShare scheduled quantity original fxRate) (hs : Storable scheduled)
    (hq : 0 ≤ quantity) (hle : quantity ≤ original) (horiginal : Storable original)
    (h0 : 0 < original) (hrate : 0 < fxRate) :
    |cost.localCost - scheduled * quantity / original| ≤ 1 / 10 ^ 10 ∧
      |cost.baseCost - scheduled * quantity / original * fxRate| ≤ (1 + fxRate) / 10 ^ 10 := by
  have hw : (10 : ℚ) ^ (-900000 : ℤ) ≤ original := by
    have hunit := (OnGrid.zero 10).quantum_le_sub horiginal.onGrid h0
    have hsmall : (10 : ℚ) ^ (-900000 : ℤ) ≤ 10 ^ (-((10 : ℕ) : ℤ)) :=
      zpow_le_zpow_right₀ (by norm_num) (by norm_num)
    linarith
  have hl : |cost.localCost - scheduled * quantity / original| ≤ 1 / 10 ^ 10 := by
    rw [h.localCost]
    exact abs_quantize_workingShare_sub_le (storable_bound hs).le hq hle hw
  refine ⟨hl, ?_⟩
  have hproduct : |cost.baseCost - cost.localCost * fxRate| ≤ 1 / 10 ^ 10 := by
    have hstored := h.base_storable
    rw [h.baseCost] at hstored ⊢
    exact abs_extendedCost_sub_le hstored
  have hscaled : |cost.localCost * fxRate - scheduled * quantity / original * fxRate| ≤
      fxRate / 10 ^ 10 := by
    rw [← sub_mul, abs_mul, abs_of_pos hrate]
    have := mul_le_mul_of_nonneg_right hl hrate.le
    linarith
  have htri := abs_sub_le cost.baseCost (cost.localCost * fxRate)
    (scheduled * quantity / original * fxRate)
  linarith

/-- The open lot after `n` disposals of ledger quantities at one rate: what it carries is its share
of the scheduled cost, up to two units of the last decimal for each disposal. -/
structure OpenLot.Near (original fxRate : ℚ) (n : ℕ) (lot : OpenLot) : Prop where
  openQuantity : Storable lot.openQuantity
  storable : ∀ c ∈ lot.carried, Storable c.scheduledCostLocal ∧ Storable c.residualCostLocal ∧
    Storable c.residualCostBase
  near_local : ∀ c ∈ lot.carried, |c.residualCostLocal -
    c.scheduledCostLocal * lot.openQuantity / original| ≤ n * (2 / 10 ^ 10)
  near_base : ∀ c ∈ lot.carried, |c.residualCostBase -
    c.scheduledCostLocal * lot.openQuantity / original * fxRate| ≤ n * (2 * (1 + fxRate) / 10 ^ 10)

section Step

variable {d : BookDisposal} {r : RecognizedLotBookCost} {fxRate : ℚ} {n : ℕ}
  (hledger : profile.Ledgered) (horiginal : Storable original)
  (hrate : d.bookCostFxRateToBase = fxRate)
include hledger horiginal hrate

/-- The carrying amount before a disposal recognizes one more share. -/
theorem OpenLot.Near.current (hn : lot.Near original fxRate n)
    (h : lot.allocate profile original d = .ok r) :
    |r.currentCostLocal - r.scheduledCostLocal * lot.openQuantity / original| ≤
        n * (2 / 10 ^ 10) + 1 / 10 ^ 10 ∧
      |r.currentCostBase - r.scheduledCostLocal * lot.openQuantity / original * fxRate| ≤
        n * (2 * (1 + fxRate) / 10 ^ 10) + (1 + fxRate) / 10 ^ 10 := by
  have ha := OpenLot.allocate_allocated h
  rw [hrate] at ha
  obtain ⟨-, -, h0, hopen, -, hpos, hle, -⟩ := ha.valid
  have hs : Storable r.scheduledCostLocal :=
    scheduledCost_eq ha.scheduled ▸ hledger.scheduledCost_storable _
  have hcurrent := ha.current
  obtain ⟨openQuantity, carried⟩ := lot
  cases hcurrent with
  | opening hshare =>
    obtain ⟨hl, hb⟩ := hshare.near hs hopen.le hle horiginal h0 hpos
    have hn0 : (0 : ℚ) ≤ n * (2 / 10 ^ 10) := by positivity
    have hn1 : (0 : ℚ) ≤ n * (2 * (1 + fxRate) / 10 ^ 10) := by positivity
    exact ⟨hl.trans (le_add_of_nonneg_left hn0), hb.trans (le_add_of_nonneg_left hn1)⟩
  | moved c movement hmovement hl hb =>
    obtain ⟨hcs, hcl, hcb⟩ := hn.storable c rfl
    -- the movement of the schedule is exact
    have hdiff : Storable (r.scheduledCostLocal - c.scheduledCostLocal) :=
      hs.sub hcs ha.scheduled_nonneg.1 c.scheduled_nonneg
    obtain ⟨hgrid, hlt⟩ := storable_iff.mp hdiff
    rw [workingRound_of_onGrid hgrid (hlt.trans (by norm_num)), quantize_of_onGrid hgrid]
      at hmovement
    obtain ⟨hml, hmb⟩ := hmovement.near hdiff hopen.le hle horiginal h0 hpos
    have hcurl := ((add_eq_ok hcl hmovement.local_storable).mp hl).1
    have hcurb := ((add_eq_ok hcb hmovement.base_storable).mp hb).1
    simp only at hcurl hcurb
    have hnl := hn.near_local c rfl
    have hnb := hn.near_base c rfl
    have hexact : r.scheduledCostLocal * openQuantity / original =
        c.scheduledCostLocal * openQuantity / original +
          (r.scheduledCostLocal - c.scheduledCostLocal) * openQuantity / original := by ring
    rw [hcurl, hcurb, hexact, add_mul, add_sub_add_comm, add_sub_add_comm]
    exact ⟨(abs_add_le _ _).trans (add_le_add hnl hml), (abs_add_le _ _).trans (add_le_add hnb hmb)⟩

/-- A partial disposal takes a further share. -/
theorem OpenLot.Near.residual (hn : lot.Near original fxRate n)
    (h : lot.allocate profile original d = .ok r) (hpart : d.consumedQuantity ≠ lot.openQuantity) :
    |r.residualCostLocal - r.scheduledCostLocal * (lot.openQuantity - d.consumedQuantity) /
        original| ≤ (n + 1 : ℕ) * (2 / 10 ^ 10) ∧
      |r.residualCostBase -
          r.scheduledCostLocal * (lot.openQuantity - d.consumedQuantity) / original * fxRate| ≤
        (n + 1 : ℕ) * (2 * (1 + fxRate) / 10 ^ 10) := by
  obtain ⟨hl, hb⟩ := hn.current hledger horiginal hrate h
  have ha := OpenLot.allocate_allocated h
  rw [hrate] at ha
  obtain ⟨-, -, h0, -, hconsumed, hpos, hle, hle'⟩ := ha.valid
  have hs : Storable r.scheduledCostLocal :=
    scheduledCost_eq ha.scheduled ▸ hledger.scheduledCost_storable _
  obtain ⟨hcl, hcb⟩ := (ha.part hpart).near hs hconsumed.le (hle'.trans hle) horiginal h0 hpos
  have hexact : r.scheduledCostLocal * (lot.openQuantity - d.consumedQuantity) / original =
      r.scheduledCostLocal * lot.openQuantity / original -
        r.scheduledCostLocal * d.consumedQuantity / original := by ring
  rw [ha.residualLocal_eq, ha.residualBase_eq, hexact, sub_mul]
  push_cast
  constructor
  · rw [sub_sub_sub_comm]
    refine ((abs_sub _ _).trans (add_le_add hl hcl)).trans_eq ?_
    ring
  · rw [sub_sub_sub_comm]
    refine ((abs_sub _ _).trans (add_le_add hb hcb)).trans_eq ?_
    ring

omit hledger horiginal hrate in
/-- The quantity left is exact for ledger quantities. -/
theorem OpenLot.residualQuantity_eq (hopen : Storable lot.openQuantity)
    (hconsumed : Storable d.consumedQuantity) (h : lot.allocate profile original d = .ok r) :
    r.residualQuantity = lot.openQuantity - d.consumedQuantity ∧ Storable r.residualQuantity := by
  have ha := OpenLot.allocate_allocated h
  obtain ⟨-, -, -, hopen0, hconsumed0, -, -, -⟩ := ha.valid
  have hstored := hopen.sub hconsumed hopen0.le hconsumed0.le
  obtain ⟨hgrid, hlt⟩ := storable_iff.mp hstored
  have heq : r.residualQuantity = lot.openQuantity - d.consumedQuantity := by
    rw [ha.residualQuantity, workingRound_of_onGrid hgrid (hlt.trans (by norm_num)),
      quantize_of_onGrid hgrid]
  exact ⟨heq, heq ▸ hstored⟩

theorem OpenLot.Near.next (hn : lot.Near original fxRate n)
    (hconsumed : Storable d.consumedQuantity)
    (h : lot.allocate profile original d = .ok r) {carried : Option CarriedLotBookCost}
    (hc : r.carryForward = .ok carried) :
    OpenLot.Near original fxRate (n + 1) ⟨r.residualQuantity, carried⟩ := by
  have ha := OpenLot.allocate_allocated h
  obtain ⟨hquantity, hstored⟩ := OpenLot.residualQuantity_eq hn.openQuantity hconsumed h
  have hcarried := RecognizedLotBookCost.carryForward_eq_ok hc
  have hs : Storable r.scheduledCostLocal :=
    scheduledCost_eq ha.scheduled ▸ hledger.scheduledCost_storable _
  -- something is carried forward only by a partial disposal
  have hpart : ∀ c ∈ carried, d.consumedQuantity ≠ lot.openQuantity := by
    rintro c hmem hwhole
    rw [hwhole, sub_self] at hquantity
    unfold RecognizedLotBookCost.carryForward at hc
    rw [if_pos hquantity] at hc
    cases hc
    cases hmem
  refine ⟨hstored, fun c hmem => ?_, fun c hmem => ?_, fun c hmem => ?_⟩
  · rw [(hcarried c hmem).1, (hcarried c hmem).2.1, (hcarried c hmem).2.2]
    exact ⟨hs, ha.residual_storable⟩
  · rw [(hcarried c hmem).1, (hcarried c hmem).2.1, hquantity]
    exact (hn.residual hledger horiginal hrate h (hpart c hmem)).1
  · rw [(hcarried c hmem).1, (hcarried c hmem).2.2, hquantity]
    exact (hn.residual hledger horiginal hrate h (hpart c hmem)).2

end Step

/-- Every disposal of a run adds at most two units of the last decimal. -/
theorem OpenLot.Near.run (hledger : profile.Ledgered) (horiginal : Storable original) {fxRate : ℚ}
    {n : ℕ} (hn : lot.Near original fxRate n)
    (hds : ∀ d ∈ ds, Storable d.consumedQuantity ∧ d.bookCostFxRateToBase = fxRate)
    (h : lot.disposeAll profile original ds = .ok (rs, last)) :
    last.Near original fxRate (n + ds.length) ∧
      last.openQuantity = lot.openQuantity - (ds.map (·.consumedQuantity)).sum := by
  induction ds generalizing lot n rs with
  | nil =>
    cases h
    exact ⟨hn, by simp⟩
  | cons d ds ih =>
    obtain ⟨r, carried, rest, hr, hc, hrest, rfl⟩ := OpenLot.disposeAll_cons_eq_ok h
    obtain ⟨hconsumed, hrate⟩ := hds d (.head _)
    have hquantity := (OpenLot.residualQuantity_eq hn.openQuantity hconsumed hr).1
    obtain ⟨hnear, hopen⟩ := ih (hn.next hledger horiginal hrate hconsumed hr hc)
      (fun x hx => hds x (.tail _ hx)) hrest
    rw [length_cons, map_cons, sum_cons, hopen, hquantity, ← sub_sub]
    exact ⟨by rw [add_comm ds.length, ← add_assoc]; exact hnear, rfl⟩

/-- After the disposals `ds` and `d` nothing is left of the lot, or the base cost of what is left is
two units of the last decimal, of it and of the rate, for each of them. -/
def LeavesEnough (profile : LotAmortizedCostProfileVersion) (original openQuantity fxRate : ℚ)
    (ds : List BookDisposal) (d : BookDisposal) : Prop :=
  let left := openQuantity - (ds.map (·.consumedQuantity)).sum - d.consumedQuantity
  left = 0 ∨ (ds.length + 1 : ℕ) * (2 * (1 + fxRate) / 10 ^ 10) ≤
    scheduledCost profile d.disposalDate * left / original * fxRate

/-- **Disposals against rounding.** Ledger quantities of a lot with a ledger schedule are disposed
of at one rate. As long as each disposal leaves enough, or nothing, it leaves nonnegative costs,
which are carried forward and persisted. -/
theorem amortized_residual_nonneg (hledger : profile.Ledgered) {openQuantity fxRate : ℚ}
    (horiginal : Storable original) (hopen : Storable openQuantity) {ds : List BookDisposal}
    {d : BookDisposal} {rs : List RecognizedLotBookCost} {lot : OpenLot} {r : RecognizedLotBookCost}
    (hds : ∀ x ∈ ds ++ [d], Storable x.consumedQuantity ∧ x.bookCostFxRateToBase = fxRate)
    (hleft : LeavesEnough profile original openQuantity fxRate ds d)
    (hrun : OpenLot.disposeAll profile original ⟨openQuantity, none⟩ ds = .ok (rs, lot))
    (h : lot.allocate profile original d = .ok r) :
    0 ≤ r.residualCostLocal ∧ 0 ≤ r.residualCostBase ∧
      (∃ carried, r.carryForward = .ok carried) ∧ requireAmortizedEvidence r = .ok () := by
  have hstart : OpenLot.Near original fxRate 0 ⟨openQuantity, none⟩ := ⟨hopen, nofun, nofun, nofun⟩
  obtain ⟨hn, hquantity⟩ := hstart.run hledger horiginal
    (fun x hx => hds x (mem_append_left _ hx)) hrun
  rw [zero_add] at hn
  obtain ⟨hconsumed, hrate⟩ := hds d (by simp)
  have ha := OpenLot.allocate_allocated h
  have hpos : 0 < fxRate := hrate ▸ ha.valid.2.2.2.2.2.1
  have hnonneg : 0 ≤ r.residualCostLocal ∧ 0 ≤ r.residualCostBase := by
    by_cases hwhole : d.consumedQuantity = lot.openQuantity
    · obtain ⟨hl, hb⟩ := ha.residual_of_whole hwhole
      exact ⟨hl.ge, hb.ge⟩
    obtain ⟨hl, hb⟩ := hn.residual hledger horiginal hrate h hwhole
    unfold LeavesEnough at hleft
    rw [← hquantity, or_iff_right (sub_ne_zero.mpr (Ne.symm hwhole)),
      scheduledCost_eq ha.scheduled] at hleft
    -- the bound in base currency covers the one in local currency
    have hlocal : (ds.length + 1 : ℕ) * (2 / 10 ^ 10) ≤
        r.scheduledCostLocal * (lot.openQuantity - d.consumedQuantity) / original := by
      refine le_of_mul_le_mul_right (le_trans ?_ hleft) hpos
      have hsteps : (0 : ℚ) ≤ (ds.length + 1 : ℕ) * (2 / 10 ^ 10) := by positivity
      calc ((ds.length + 1 : ℕ) : ℚ) * (2 / 10 ^ 10) * fxRate
          ≤ (ds.length + 1 : ℕ) * (2 / 10 ^ 10) * (1 + fxRate) :=
            mul_le_mul_of_nonneg_left (by linarith) hsteps
        _ = (ds.length + 1 : ℕ) * (2 * (1 + fxRate) / 10 ^ 10) := by ring
    have hl' := abs_le.mp hl
    have hb' := abs_le.mp hb
    exact ⟨by linarith, by linarith⟩
  refine ⟨hnonneg.1, hnonneg.2, ?_, ha.evidence hn.openQuantity hconsumed hnonneg.1 hnonneg.2⟩
  unfold RecognizedLotBookCost.carryForward
  split_ifs with h0
  · exact ⟨none, rfl⟩
  · have hnew := CarriedLotBookCost.new_eq_ok.mpr (⟨rfl, rfl, rfl⟩ :
      (⟨_, _, _, ha.scheduled_nonneg.1, hnonneg.1, hnonneg.2⟩ : CarriedLotBookCost).1 = _ ∧
        _ = _ ∧ _ = _)
    exact ⟨_, except_map_eq_ok.mpr ⟨_, hnew, rfl⟩⟩

/-- The second third of the accreting note. -/
theorem amortized_residual_nonneg_note :
    ∃ rs lot r, OpenLot.disposeAll accretingNote 3 ⟨3, none⟩ [⟨5, 1, 11 / 10⟩] = .ok (rs, lot) ∧
      lot.allocate accretingNote 3 ⟨12, 1, 11 / 10⟩ = .ok r ∧
      0 ≤ r.residualCostLocal ∧ 0 ≤ r.residualCostBase ∧
      (∃ carried, r.carryForward = .ok carried) ∧ requireAmortizedEvidence r = .ok () := by
  have hledger : accretingNote.Ledgered :=
    ⟨by rintro _ ⟨⟩; decide +kernel, by simp only [accretingNote]; decide +kernel⟩
  have hrun : ((OpenLot.disposeAll accretingNote 3 ⟨3, none⟩ [⟨5, 1, 11 / 10⟩]) >>=
      fun x => (x.2.allocate accretingNote 3 ⟨12, 1, 11 / 10⟩).map fun _ => ()) = .ok () := by
    decide +kernel
  have hds : ∀ x ∈ [BookDisposal.mk 5 1 (11 / 10)] ++ [⟨12, 1, 11 / 10⟩],
      Storable x.consumedQuantity ∧ x.bookCostFxRateToBase = 11 / 10 := by
    simp only [cons_append, nil_append]
    decide +kernel
  obtain ⟨⟨rs, lot⟩, hrs, h⟩ := except_bind_eq_ok.mp hrun
  obtain ⟨r, hr, -⟩ := except_map_eq_ok.mp h
  have hthree : Storable 3 := storable_iff.mpr ⟨⟨3 * 10 ^ 10, by norm_num⟩, by norm_num⟩
  exact ⟨rs, lot, r, hrs, hr,
    amortized_residual_nonneg hledger hthree hthree hds (.inr (by decide +kernel)) hrs hr⟩

/-- A note carried at three units of the last decimal. -/
def smallNote : LotAmortizedCostProfileVersion where
  profileId := "note"
  profileVersion := 1
  contentHash := ""
  effectiveDate := 0
  status := .active
  currency := some "USD"
  initialAmortizedCostLocal := some (3 / 10 ^ 10)
  periods := [⟨0, 365, 3 / 10 ^ 10, 3 / 10 ^ 10, by norm_num, by norm_num, by norm_num⟩]
  initial_nonneg := by rintro _ ⟨⟩; norm_num
  active_initial _ := rfl
  active_periods _ := nofun
  periods_contiguous := by simp
  periods_begin := by rintro _ ⟨⟩; rfl
  nonactive h := absurd rfl h

/-- Four of five units take four tenths of a unit of the last decimal more than they cost, so the
fourth leaves less than nothing. -/
theorem amortized_residual_negative :
    ∃ rs lot r, OpenLot.disposeAll smallNote 5 ⟨5, none⟩ [⟨1, 1, 1⟩, ⟨2, 1, 1⟩, ⟨3, 1, 1⟩] =
        .ok (rs, lot) ∧
      lot.allocate smallNote 5 ⟨4, 1, 1⟩ = .ok r ∧ r.residualQuantity = 1 ∧
      r.residualCostLocal = -(1 / 10 ^ 10) ∧ r.residualCostBase = -(1 / 10 ^ 10) ∧
      r.carryForward = .error (.valueError "residual_cost_local must be non-negative") := by
  have hrun : ((OpenLot.disposeAll smallNote 5 ⟨5, none⟩ [⟨1, 1, 1⟩, ⟨2, 1, 1⟩, ⟨3, 1, 1⟩]) >>=
      fun x => (x.2.allocate smallNote 5 ⟨4, 1, 1⟩).map fun r =>
        (r.residualQuantity, r.residualCostLocal, r.residualCostBase, r.carryForward)) =
      .ok (1, -(1 / 10 ^ 10), -(1 / 10 ^ 10),
        .error (.valueError "residual_cost_local must be non-negative")) := by decide +kernel
  obtain ⟨⟨rs, lot⟩, hrs, h⟩ := except_bind_eq_ok.mp hrun
  obtain ⟨r, hr, h⟩ := except_map_eq_ok.mp h
  simp only [Prod.mk.injEq] at h
  exact ⟨rs, lot, r, hrs, hr, h⟩

end LotusCore
