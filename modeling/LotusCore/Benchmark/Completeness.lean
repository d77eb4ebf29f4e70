import LotusCore.Benchmark.Composition

/-!
# Is the completeness of a composition window truthful?

The response of a window says whether the weights of its segments add up to one, and on which days a
period with another total begins. The totals are taken on the first day of the window and on the
days on which a segment begins, and on no others.

* `weightOn_segments`: the segments that cover a day have the weights of the components in force on
  it.
* `sampledWeight_eq_one_iff`: the rounded total is one exactly when the exact total is.
* **`composition_completeness_iff`**: the response is truthful exactly when a component begins on
  every day on which the total leaves one.
-/

namespace LotusCore.Benchmark

open Decimal List

/-! ## The response -/

inductive CompletenessStatus
  | complete
  | partially
  deriving Repr, DecidableEq

variable (segments : List BenchmarkComponent)

def sampledWeight (boundary : ℤ) : ℚ :=
  (segments.filter fun segment => segment.Covers boundary).foldl
    (fun total segment => ambientContext.round (total + segment.compositionWeight)) 0

def incompletePeriodStarts (startDate endDate : ℤ) : List ℤ :=
  let boundaries := (startDate ::
    (segments.filter fun segment => startDate ≤ segment.compositionEffectiveFrom ∧
      segment.compositionEffectiveFrom ≤ endDate).map (·.compositionEffectiveFrom)).dedup
  (boundaries.insertionSort (· ≤ ·)).filter fun boundary => sampledWeight segments boundary ≠ 1

def completeness (incompleteStarts : List ℤ) : CompletenessStatus × String :=
  if incompleteStarts ≠ [] then (.partially, "BENCHMARK_COMPOSITION_WEIGHTS_INCOMPLETE")
  else (.complete, "BENCHMARK_COMPOSITION_WINDOW_COMPLETE")

/-- What `BenchmarkCompositionWindowResponse` says about the composition. -/
structure CompositionResponse where
  benchmarkId : String
  benchmarkCurrency : String
  resolvedWindow : DateWindow
  segments : List BenchmarkComponent
  completenessStatus : CompletenessStatus
  completenessReason : String
  incompletePeriodStarts : List ℤ

/-- `build_benchmark_composition_response`, of the definitions only their currencies. -/
def buildBenchmarkCompositionResponse (benchmarkId : String) (w : DateWindow)
    (definitionCurrencies : List String) (components : List BenchmarkComponent) :
    Except Raised CompositionResponse :=
  match definitionCurrencies.dedup with
  | [currency] =>
    let segments := resolveBenchmarkComponentSegments components w.startDate w.endDate
    let incompleteStarts := Benchmark.incompletePeriodStarts segments w.startDate w.endDate
    .ok {
      benchmarkId := benchmarkId
      benchmarkCurrency := currency
      resolvedWindow := w
      segments := segments
      completenessStatus := (completeness incompleteStarts).1
      completenessReason := (completeness incompleteStarts).2
      incompletePeriodStarts := incompleteStarts }
  | _ => .error (.valueError
      "Benchmark definition currency changed within requested composition window.")

/-! ## What it should say -/

/-- The weights of the segments that cover a day, added up exactly. -/
def weightOn (d : ℤ) : ℚ :=
  ((segments.filter fun segment => segment.Covers d).map (·.compositionWeight)).sum

/-- The response reports completeness exactly when the weights add up to one on every day of the
window, and lists the first day of every longest run of other days. -/
structure CompositionResponse.Truthful (r : CompositionResponse) : Prop where
  complete_iff : r.completenessStatus = .complete ↔
    ∀ d, r.resolvedWindow.Contains d → weightOn r.segments d = 1
  lists_first : ∀ d, r.resolvedWindow.Contains d → weightOn r.segments d ≠ 1 →
    (d = r.resolvedWindow.startDate ∨ weightOn r.segments (d - 1) = 1) →
      d ∈ r.incompletePeriodStarts

/-- A weight as its column holds it. -/
def StoredWeight (weight : ℚ) : Prop := OnGrid 10 weight ∧ 0 ≤ weight

/-- The component of its index begun last by a day, if it is in force on that day. -/
def InForce (components : List BenchmarkComponent) (d : ℤ) (a : BenchmarkComponent) : Prop :=
  a.Covers d ∧ ∀ c ∈ components, c.indexId = a.indexId → c.compositionEffectiveFrom ≤ d →
    c.compositionEffectiveFrom ≤ a.compositionEffectiveFrom
  deriving Decidable

def inForceWeight (components : List BenchmarkComponent) (d : ℤ) : ℚ :=
  ((components.filter fun a => InForce components d a).map (·.compositionWeight)).sum

/-! ## Rounded totals -/

section Totals

variable {x : ℚ} {weights : List ℚ}

theorem le_foldl_round (hx : 0 ≤ x) (hheld : ambientContext.round x = x)
    (hweights : ∀ v ∈ weights, 0 ≤ v) :
    x ≤ weights.foldl (fun total v => ambientContext.round (total + v)) x := by
  induction weights generalizing x with
  | nil => exact le_rfl
  | cons v rest ih =>
    have hv : 0 ≤ v := hweights v (by simp)
    have hstep : x ≤ ambientContext.round (x + v) := by
      conv_lhs => rw [← hheld]
      exact ambientContext.round_mono hx (le_add_of_nonneg_right hv)
    exact hstep.trans (ih (hx.trans hstep) (ambientContext.round_round _)
      fun u hu => hweights u (mem_cons_of_mem _ hu))

/-- Weights as their column holds them are added up to one exactly when they are one in total: below
the column's bound nothing is rounded, and a total beyond it does not come back. -/
theorem foldl_round_eq_one_iff (hx : StoredWeight x) (hweights : ∀ v ∈ weights, StoredWeight v) :
    weights.foldl (fun total v => ambientContext.round (total + v)) x = 1 ↔
      x + weights.sum = 1 := by
  induction weights generalizing x with
  | nil => simp
  | cons v rest ih =>
    have hv := hweights v (by simp)
    have hrest : ∀ u ∈ rest, StoredWeight u := fun u hu => hweights u (mem_cons_of_mem _ hu)
    have hsum : 0 ≤ rest.sum := sum_nonneg fun u hu => (hrest u hu).2
    have hxv : StoredWeight (x + v) := ⟨hx.1.add hv.1, add_nonneg hx.2 hv.2⟩
    rw [foldl_cons, sum_cons, ← add_assoc]
    rcases lt_or_ge (x + v) (10 ^ 8) with hsmall | hlarge
    · have hstorable : Storable (x + v) :=
        Ledger.storable_iff.mpr ⟨hxv.1, by rwa [abs_of_nonneg hxv.2]⟩
      rw [ambientContext_round_of_storable hstorable]
      exact ih hxv hrest
    · have hthree : ambientContext.round 3 ≤ ambientContext.round (x + v) :=
        ambientContext.round_mono (by norm_num) (by linarith)
      have hheld : ambientContext.round 3 = 3 := by decide +kernel
      have hfold : ambientContext.round (x + v) ≤
          rest.foldl (fun total u => ambientContext.round (total + u))
            (ambientContext.round (x + v)) :=
        le_foldl_round (ambientContext.round_nonneg hxv.2) (ambientContext.round_round _)
          fun u hu => (hrest u hu).2
      constructor
      · intro h
        linarith
      · intro h
        linarith

end Totals

/-! ## Segments and components -/

section Segments

variable {components : List BenchmarkComponent} {w : DateWindow} {d : ℤ} {a : BenchmarkComponent}

/-- Among the rows of its index, a component is in force like among all. -/
theorem begunLastIn_orderedRows {index : String} (ha : a.indexId = index) :
    BegunLastIn (orderedRows (Grouping.rowsOf BenchmarkComponent.indexId components index)) d a ↔
      ∀ c ∈ components, c.indexId = a.indexId → c.compositionEffectiveFrom ≤ d →
        c.compositionEffectiveFrom ≤ a.compositionEffectiveFrom := by
  simp only [BegunLastIn, orderedRows, mem_insertionSort, Grouping.mem_rowsOf, and_imp, ha]

theorem sum_filter_map {α : Type} (l : List α) (p : α → Prop) [DecidablePred p] (f : α → ℚ) :
    ((l.filter fun a => p a).map f).sum = (l.map fun a => if p a then f a else 0).sum := by
  induction l with
  | nil => rfl
  | cons a l ih =>
    by_cases ha : p a
    · rw [filter_cons_of_pos (by simpa using ha), map_cons, map_cons, sum_cons,
        sum_cons, ih, if_pos ha]
    · rw [filter_cons_of_neg (by simpa using ha), map_cons, sum_cons, ih, if_neg ha,
        zero_add]

theorem weightOn_index (hunique : (components.map BenchmarkComponent.sortKey).Nodup)
    (hd : w.Contains d) (index : String) :
    weightOn (resolveOrdered w.startDate w.endDate
        (orderedRows (Grouping.rowsOf BenchmarkComponent.indexId components index))) d =
      ((Grouping.rowsOf BenchmarkComponent.indexId components index).map fun a =>
        if InForce components d a then a.compositionWeight else 0).sum := by
  have hlabels := filter_resolveOrdered (orderedRows_increasing_of_nodup hunique index) hd.1 hd.2
  have hweights := congrArg (fun labels => (labels.map Prod.snd).sum) hlabels
  simp only [map_map] at hweights
  refine hweights.trans ?_
  have hperm : (orderedRows (Grouping.rowsOf BenchmarkComponent.indexId components index)).Perm
      (Grouping.rowsOf BenchmarkComponent.indexId components index) := perm_insertionSort _ _
  rw [((hperm.filter _).map _).sum_eq, sum_filter_map]
  refine congrArg List.sum (map_congr_left fun a ha => ?_)
  have hindex := (Grouping.mem_rowsOf.mp ha).2
  simp only [begunLastIn_orderedRows hindex]
  rfl

/-- **The segments of a window** weigh on a day what is in force on that day. -/
theorem weightOn_segments (hunique : (components.map BenchmarkComponent.sortKey).Nodup)
    (hd : w.Contains d) :
    weightOn (resolveBenchmarkComponentSegments components w.startDate w.endDate) d =
      inForceWeight components d := by
  have hperm : (resolveBenchmarkComponentSegments components w.startDate w.endDate).Perm
      ((Grouping.groups BenchmarkComponent.indexId components).flatMap fun rows =>
        resolveOrdered w.startDate w.endDate (orderedRows rows)) := perm_insertionSort _ _
  have hgroups : weightOn (resolveBenchmarkComponentSegments components w.startDate w.endDate) d =
      ((Grouping.keys BenchmarkComponent.indexId components).map fun index =>
        weightOn (resolveOrdered w.startDate w.endDate
          (orderedRows (Grouping.rowsOf BenchmarkComponent.indexId components index))) d).sum := by
    unfold weightOn
    rw [((hperm.filter _).map _).sum_eq, filter_flatMap, map_flatMap, Grouping.groups,
      flatMap_map, flatMap_def, sum_flatten, map_map]
    rfl
  have hall : ((Grouping.keys BenchmarkComponent.indexId components).map fun index =>
      ((Grouping.rowsOf BenchmarkComponent.indexId components index).map fun a =>
        if InForce components d a then a.compositionWeight else 0).sum).sum =
      (components.map fun a => if InForce components d a then a.compositionWeight else 0).sum := by
    simpa only [filter_true] using Grouping.sum_keys (l := components)
      (fun a => if InForce components d a then a.compositionWeight else 0) fun _ => true
  rw [hgroups, inForceWeight, sum_filter_map, ← hall]
  exact congrArg List.sum (map_congr_left fun index _ => weightOn_index hunique hd index)

/-- A component that begins in the window is dropped only if it ended before the window. -/
theorem resolvedEnd_lt_iff {next : Option BenchmarkComponent} {startDate : ℤ}
    (hfrom : startDate ≤ a.compositionEffectiveFrom)
    (hnext : ∀ n ∈ next, a.compositionEffectiveFrom < n.compositionEffectiveFrom) :
    (∃ e ∈ resolvedEnd a next, e < startDate) ↔ ∃ e ∈ a.compositionEffectiveTo, e < startDate := by
  cases next with
  | none => rfl
  | some n =>
    have hn := hnext n rfl
    cases hto : a.compositionEffectiveTo with
    | none =>
      simp only [resolvedEnd, hto, Option.mem_some_iff, exists_eq_left', Option.not_mem_none,
        false_and, exists_false, iff_false, not_lt]
      omega
    | some last =>
      simp only [resolvedEnd, hto]
      split_ifs
      · simp only [Option.mem_some_iff, exists_eq_left']
        omega
      · simp only [Option.mem_some_iff, exists_eq_left']
        omega

theorem exists_begin_resolveOrdered {l : List BenchmarkComponent}
    (hl : Ordered.Increasing BenchmarkComponent.compositionEffectiveFrom l) (hd : w.Contains d) :
    (∃ s ∈ resolveOrdered w.startDate w.endDate l, s.compositionEffectiveFrom = d) ↔
      ∃ c ∈ l, w.Overlaps c ∧ c.compositionEffectiveFrom = d := by
  induction l with
  | nil => simp [resolveOrdered]
  | cons b rest ih =>
    obtain ⟨hb, hrest⟩ := pairwise_cons.mp hl
    have hnext : ∀ n ∈ rest.head?, b.compositionEffectiveFrom < n.compositionEffectiveFrom :=
      fun n hn => hb n (mem_of_mem_head? hn)
    rw [resolveOrdered]
    simp only [mem_cons, exists_eq_or_imp, ← ih hrest]
    by_cases hbd : b.compositionEffectiveFrom = d
    · have hlate : ¬ w.endDate < b.compositionEffectiveFrom := not_lt.mpr (hbd.trans_le hd.2)
      have hdropped := resolvedEnd_lt_iff (hd.1.trans_eq hbd.symm) hnext
      rw [if_neg hlate]
      by_cases hended : ∃ e ∈ b.compositionEffectiveTo, e < w.startDate
      · have hout : ¬ w.Overlaps b := fun h => by
          obtain ⟨e, he, hlt⟩ := hended
          exact absurd (h.2 e he) (not_le.mpr hlt)
        rw [if_pos (hdropped.mpr hended)]
        simp [hout]
      · have hin : w.Overlaps b := by
          refine ⟨not_lt.mp hlate, fun e he => ?_⟩
          by_contra hlt
          exact hended ⟨e, he, not_le.mp hlt⟩
        rw [if_neg fun h => hended (hdropped.mp h)]
        simp [hin, hbd]
    · split_ifs
      · simp [hbd]
      · simp [hbd]
      · simp [hbd]

/-- The days of the window on which a segment begins are those on which a component begins that has
not ended before the window. -/
theorem exists_begin_segments (hunique : (components.map BenchmarkComponent.sortKey).Nodup)
    (hd : w.Contains d) :
    (∃ s ∈ resolveBenchmarkComponentSegments components w.startDate w.endDate,
        s.compositionEffectiveFrom = d) ↔
      ∃ c ∈ components, w.Overlaps c ∧ c.compositionEffectiveFrom = d := by
  have hindex : ∀ index, (∃ s ∈ resolveOrdered w.startDate w.endDate
        (orderedRows (Grouping.rowsOf BenchmarkComponent.indexId components index)),
          s.compositionEffectiveFrom = d) ↔
      ∃ c ∈ components, c.indexId = index ∧ w.Overlaps c ∧ c.compositionEffectiveFrom = d := by
    intro index
    rw [exists_begin_resolveOrdered (orderedRows_increasing_of_nodup hunique index) hd]
    simp only [orderedRows, mem_insertionSort, Grouping.mem_rowsOf, and_assoc]
  simp only [resolveBenchmarkComponentSegments, mem_insertionSort, mem_flatMap]
  constructor
  · rintro ⟨s, ⟨rows, hgroup, hs⟩, hfrom⟩
    obtain ⟨first, -, rfl⟩ := Grouping.mem_groups.mp hgroup
    obtain ⟨c, hc, -, hrest⟩ := (hindex _).mp ⟨s, hs, hfrom⟩
    exact ⟨c, hc, hrest⟩
  · rintro ⟨c, hc, hrest⟩
    obtain ⟨s, hs, hfrom⟩ := (hindex c.indexId).mpr ⟨c, hc, rfl, hrest⟩
    exact ⟨s, ⟨_, Grouping.mem_groups.mpr ⟨c, hc, rfl⟩, hs⟩, hfrom⟩

theorem exists_component_of_segment {segment : BenchmarkComponent}
    (h : segment ∈ resolveBenchmarkComponentSegments components w.startDate w.endDate) :
    ∃ c ∈ components, c.compositionWeight = segment.compositionWeight := by
  have hloop : ∀ l : List BenchmarkComponent, ∀ s ∈ resolveOrdered w.startDate w.endDate l,
      ∃ c ∈ l, c.compositionWeight = s.compositionWeight := by
    intro l
    induction l with
    | nil => simp [resolveOrdered]
    | cons b rest ih =>
      intro s hs
      rw [resolveOrdered] at hs
      have htail : s ∈ resolveOrdered w.startDate w.endDate rest →
          ∃ c ∈ b :: rest, c.compositionWeight = s.compositionWeight := fun hs => by
        obtain ⟨c, hc, hweight⟩ := ih s hs
        exact ⟨c, mem_cons_of_mem _ hc, hweight⟩
      split_ifs at hs
      · exact htail hs
      · exact htail hs
      · rcases mem_cons.mp hs with rfl | hs
        · exact ⟨b, mem_cons_self, rfl⟩
        · exact htail hs
  simp only [resolveBenchmarkComponentSegments, mem_insertionSort, mem_flatMap] at h
  obtain ⟨rows, hgroup, hs⟩ := h
  obtain ⟨first, -, rfl⟩ := Grouping.mem_groups.mp hgroup
  obtain ⟨c, hc, hweight⟩ := hloop _ segment hs
  rw [orderedRows, mem_insertionSort, Grouping.mem_rowsOf] at hc
  exact ⟨c, hc.1, hweight⟩

end Segments

/-! ## The response and the days -/

section Response

variable {components : List BenchmarkComponent} {w : DateWindow} {d : ℤ}

theorem sampledWeight_eq_one_iff {segments : List BenchmarkComponent}
    (hstored : ∀ s ∈ segments, StoredWeight s.compositionWeight) :
    sampledWeight segments d = 1 ↔ weightOn segments d = 1 := by
  have hweights : ∀ v ∈ (segments.filter fun s => s.Covers d).map (·.compositionWeight),
      StoredWeight v := by
    intro v hv
    obtain ⟨s, hs, rfl⟩ := mem_map.mp hv
    exact hstored s (mem_filter.mp hs).1
  have hfold := foldl_round_eq_one_iff ⟨OnGrid.zero 10, le_rfl⟩ hweights
  rw [foldl_map, zero_add] at hfold
  exact hfold

theorem mem_incompletePeriodStarts {segments : List BenchmarkComponent} {startDate endDate : ℤ} :
    d ∈ incompletePeriodStarts segments startDate endDate ↔
      (d = startDate ∨ (startDate ≤ d ∧ d ≤ endDate) ∧
        ∃ s ∈ segments, s.compositionEffectiveFrom = d) ∧ sampledWeight segments d ≠ 1 := by
  simp only [incompletePeriodStarts, mem_filter, mem_insertionSort, mem_dedup,
    mem_cons, mem_map, decide_eq_true_iff]
  refine and_congr_left fun _ => or_congr_right ?_
  constructor
  · rintro ⟨s, ⟨hs, hrange⟩, rfl⟩
    exact ⟨hrange, s, hs, rfl⟩
  · rintro ⟨hrange, s, hs, rfl⟩
    exact ⟨s, ⟨hs, hrange⟩, rfl⟩

theorem completeness_eq_complete_iff {starts : List ℤ} :
    (completeness starts).1 = .complete ↔ starts = [] := by
  unfold completeness
  split_ifs with h
  · simp [h]
  · simp [not_not.mp h]

/-- The total leaves one on a day after the first only where a component begins. -/
def LeavesOneAtBegins (components : List BenchmarkComponent) (w : DateWindow) : Prop :=
  ∀ d, w.startDate < d → d ≤ w.endDate → inForceWeight components (d - 1) = 1 →
    inForceWeight components d ≠ 1 →
      ∃ c ∈ components, w.Overlaps c ∧ c.compositionEffectiveFrom = d

/-- The first of the days of a window with a property that one of them has. -/
theorem exists_first {p : ℤ → Prop} {start d : ℤ} (hd : start ≤ d) (hp : p d) :
    ∃ f, start ≤ f ∧ f ≤ d ∧ p f ∧ (f = start ∨ ¬ p (f - 1)) := by
  obtain ⟨n, rfl⟩ : ∃ n : ℕ, d = start + n := ⟨(d - start).toNat, by omega⟩
  induction n with
  | zero => exact ⟨start, le_rfl, by simp, by simpa using hp, .inl rfl⟩
  | succ n ih =>
    by_cases hprev : p (start + n)
    · obtain ⟨f, hf, hle, hpf, hfirst⟩ := ih (by omega) hprev
      exact ⟨f, hf, by push_cast; omega, hpf, hfirst⟩
    · refine ⟨_, hd, le_rfl, hp, .inr ?_⟩
      have : start + ((n + 1 : ℕ) : ℤ) - 1 = start + n := by push_cast; ring
      rwa [this]

/-- **The completeness of a composition window** is truthful exactly when a component begins on
every day on which the total weight leaves one. -/
theorem composition_completeness_iff {benchmarkId : String} {currencies : List String}
    {response : CompositionResponse} (hunique : (components.map BenchmarkComponent.sortKey).Nodup)
    (hstored : ∀ c ∈ components, StoredWeight c.compositionWeight)
    (hresponse :
      buildBenchmarkCompositionResponse benchmarkId w currencies components = .ok response) :
    response.Truthful ↔ LeavesOneAtBegins components w := by
  unfold buildBenchmarkCompositionResponse at hresponse
  split at hresponse
  case h_2 => cases hresponse
  cases hresponse
  generalize hsegments : resolveBenchmarkComponentSegments components w.startDate w.endDate =
    segments
  have hweight : ∀ d, w.Contains d → weightOn segments d = inForceWeight components d :=
    fun d hd => hsegments ▸ weightOn_segments hunique hd
  have hbegin : ∀ d, w.Contains d → ((∃ s ∈ segments, s.compositionEffectiveFrom = d) ↔
      ∃ c ∈ components, w.Overlaps c ∧ c.compositionEffectiveFrom = d) :=
    fun d hd => hsegments ▸ exists_begin_segments hunique hd
  have hsampled : ∀ d, sampledWeight segments d = 1 ↔ weightOn segments d = 1 := fun d => by
    refine sampledWeight_eq_one_iff fun s hs => ?_
    obtain ⟨c, hc, hcs⟩ := exists_component_of_segment (hsegments ▸ hs)
    exact hcs ▸ hstored c hc
  constructor
  · -- a day on which the total leaves one is listed, so it is sampled
    rintro ⟨-, hlists⟩ d hafter hbefore hone hother
    have hd : w.Contains d := ⟨hafter.le, hbefore⟩
    have hd' : w.Contains (d - 1) := ⟨by omega, by omega⟩
    have hmem := hlists d hd (by rwa [hweight d hd]) (.inr (by rwa [hweight _ hd']))
    rw [mem_incompletePeriodStarts] at hmem
    rcases hmem.1 with heq | ⟨-, hs⟩
    · exact absurd heq hafter.ne'
    · exact (hbegin d hd).mp hs
  · intro hbegins
    have hlists : ∀ d, w.Contains d → weightOn segments d ≠ 1 →
        (d = w.startDate ∨ weightOn segments (d - 1) = 1) →
        d ∈ incompletePeriodStarts segments w.startDate w.endDate := by
      intro d hd hother hfirst
      rw [mem_incompletePeriodStarts]
      refine ⟨?_, fun h => hother ((hsampled d).mp h)⟩
      rcases eq_or_ne d w.startDate with hstart | hstart
      · exact .inl hstart
      · have hafter : w.startDate < d := lt_of_le_of_ne hd.1 hstart.symm
        have hd' : w.Contains (d - 1) := ⟨by omega, by have := hd.2; omega⟩
        have hone := hfirst.resolve_left hstart
        refine .inr ⟨hd, (hbegin d hd).mpr (hbegins d hafter hd.2 ?_ ?_)⟩
        · rwa [← hweight _ hd']
        · rwa [← hweight d hd]
    refine ⟨?_, hlists⟩
    dsimp only
    rw [completeness_eq_complete_iff]
    constructor
    · intro hempty d hd
      by_contra hother
      obtain ⟨f, hf, hfd, hpf, hfirst⟩ := exists_first (p := fun d => weightOn segments d ≠ 1)
        hd.1 hother
      have hmem := hlists f ⟨hf, hfd.trans hd.2⟩ hpf (hfirst.imp_right not_not.mp)
      rw [hempty] at hmem
      cases hmem
    · intro hall
      refine eq_nil_iff_forall_not_mem.mpr fun d hd => ?_
      obtain ⟨hday, hother⟩ := mem_incompletePeriodStarts.mp hd
      refine hother ((hsampled d).mpr (hall d ?_))
      rcases hday with rfl | ⟨hrange, -⟩
      · exact ⟨le_rfl, w.ordered⟩
      · exact hrange

end Response

/-- A component of the benchmark `BMK`. -/
def indexComponent (indexId : String) (firstDay : ℤ) (lastDay : Option ℤ) (weight : ℚ) :
    BenchmarkComponent where
  benchmarkId := "BMK"
  indexId := indexId
  compositionEffectiveFrom := firstDay
  compositionEffectiveTo := lastDay
  compositionWeight := weight
  rebalanceEventId := none

def elevenDays : DateWindow := ⟨0, 10, by norm_num⟩

/-- On day 5 one index is replaced by another with too small a weight. -/
def rebalanced : List BenchmarkComponent :=
  [indexComponent "A" 0 none (6 / 10), indexComponent "B" 0 (some 4) (4 / 10),
    indexComponent "C" 5 none (3 / 10)]

/-- The wrong run from day 5 on is listed. -/
theorem composition_completeness_iff_rebalanced :
    ∃ response, buildBenchmarkCompositionResponse "BMK" elevenDays ["USD"] rebalanced =
      .ok response ∧ response.Truthful ∧ response.incompletePeriodStarts = [5] := by
  have hstored : ∀ c ∈ rebalanced, StoredWeight c.compositionWeight := by
    unfold StoredWeight
    decide +kernel
  have hbegins : LeavesOneAtBegins rebalanced elevenDays := by
    have hdays : ∀ n ∈ range 10, inForceWeight rebalanced n = 1 →
        inForceWeight rebalanced (n + 1) ≠ 1 →
          ∃ c ∈ rebalanced, elevenDays.Overlaps c ∧ c.compositionEffectiveFrom = n + 1 := by
      decide +kernel
    intro d (hafter : 0 < d) (hlast : d ≤ 10)
    obtain ⟨n, rfl⟩ : ∃ n : ℕ, d = n + 1 := ⟨(d - 1).toNat, by omega⟩
    rw [add_sub_cancel_right]
    exact hdays n (mem_range.mpr (by omega))
  obtain ⟨response, hresponse⟩ : ∃ response, buildBenchmarkCompositionResponse "BMK" elevenDays
      ["USD"] rebalanced = .ok response := ⟨_, rfl⟩
  refine ⟨response, hresponse,
    (composition_completeness_iff (by decide +kernel) hstored hresponse).mpr hbegins, ?_⟩
  cases hresponse
  decide +kernel

/-- A gap after the last day of a component is not seen. -/
theorem composition_completeness_misses_gap :
    ∃ response, buildBenchmarkCompositionResponse "BMK" elevenDays ["USD"]
        [indexComponent "IDX" 0 (some 5) 1] = .ok response ∧
      response.completenessStatus = .complete ∧
      response.incompletePeriodStarts = [] ∧ weightOn response.segments 6 = 0 ∧
      ¬ response.Truthful := by
  refine ⟨_, rfl, by decide +kernel, by decide +kernel, by decide +kernel, fun h => ?_⟩
  have hsix := h.complete_iff.mp (by decide +kernel) 6 ⟨by decide, by decide⟩
  exact absurd hsix (by decide +kernel)

end LotusCore.Benchmark
