import LotusCore.Data.Collation
import LotusCore.Data.Grouping
import LotusCore.Data.Ordered
import LotusCore.Numeric.Policy

/-!
# Benchmark composition windows

A benchmark is composed of index components, each in force from a day on, up to a last day or
without end. A window of the composition is read in two steps: the rows that overlap the window are
selected, and each row's range is then cut off where the next selected row of its index begins.

* `covers_resolvedEnd`: a cut range covers a day when the row does and the next row has not begun.
* `filter_resolveOrdered`: what covers a day, index by index.
* `mem_coveringSegments`: the segments that cover a day of the window come from the rows in force
  that day with no selected row of the index beginning between.
-/

namespace LotusCore.Benchmark

open Decimal List

/-! ## Stored components -/

/-- `BenchmarkComponentEvidence`. -/
structure BenchmarkComponent where
  benchmarkId : String
  indexId : String
  compositionEffectiveFrom : ℤ
  compositionEffectiveTo : Option ℤ
  compositionWeight : ℚ
  rebalanceEventId : Option String
  deriving DecidableEq

namespace BenchmarkComponent

variable (c : BenchmarkComponent)

/-- The component is in force on a day. -/
def Covers (d : ℤ) : Prop :=
  c.compositionEffectiveFrom ≤ d ∧ ∀ e ∈ c.compositionEffectiveTo, d ≤ e
  deriving Decidable

/-- What the resolved segments are sorted by. -/
def sortKey : ℤ ×ₗ String := toLex (c.compositionEffectiveFrom, c.indexId)

/-- What a segment of the response keeps of the component whatever the window. -/
def label : (ℤ ×ₗ String) × ℚ := (c.sortKey, c.compositionWeight)

end BenchmarkComponent

/-- The table `benchmark_composition_series`, with its unique constraint. -/
structure CompositionSeries where
  rows : List BenchmarkComponent
  unique : (rows.map fun c => (c.benchmarkId, c.indexId, c.compositionEffectiveFrom)).Nodup

/-- `BenchmarkCompositionDateWindow`. -/
structure DateWindow where
  startDate : ℤ
  endDate : ℤ
  ordered : startDate ≤ endDate

namespace DateWindow

def Contains (w : DateWindow) (d : ℤ) : Prop := w.startDate ≤ d ∧ d ≤ w.endDate

/-- The row of a component that `list_components_overlapping_window` keeps. -/
def Overlaps (w : DateWindow) (c : BenchmarkComponent) : Prop :=
  c.compositionEffectiveFrom ≤ w.endDate ∧ ∀ e ∈ c.compositionEffectiveTo, w.startDate ≤ e
  deriving Decidable

theorem overlaps_of_covers {w : DateWindow} {c : BenchmarkComponent} {d : ℤ} (hd : w.Contains d)
    (hc : c.Covers d) : w.Overlaps c :=
  ⟨hc.1.trans hd.2, fun e he => hd.1.trans (hc.2 e he)⟩

end DateWindow

/-! ## The query -/

variable (collation : Collation)

/-- `ORDER BY index_id, composition_effective_from`; the unique constraint leaves nothing for the
columns that follow. -/
def rowOrder (a b : BenchmarkComponent) : Prop :=
  if a.indexId = b.indexId then a.compositionEffectiveFrom ≤ b.compositionEffectiveFrom
  else collation.le a.indexId b.indexId

instance (collation : Collation) : DecidableRel (rowOrder collation) := fun a b => by
  unfold rowOrder; infer_instance

def listComponentsOverlappingWindow (series : CompositionSeries) (benchmarkId : String)
    (w : DateWindow) : List BenchmarkComponent :=
  (series.rows.filter fun c => c.benchmarkId = benchmarkId ∧ w.Overlaps c).insertionSort
    (rowOrder collation)

/-! ## The resolver -/

/-- Where the range of a component ends once the next component of its index is known. -/
def resolvedEnd (component : BenchmarkComponent) (next : Option BenchmarkComponent) : Option ℤ :=
  match next with
  | none => component.compositionEffectiveTo
  | some next =>
    let inferredEnd := next.compositionEffectiveFrom - 1
    match component.compositionEffectiveTo with
    | none => some inferredEnd
    | some last =>
      if next.compositionEffectiveFrom ≤ last then some inferredEnd else some (min last inferredEnd)

def resolveOrdered (startDate endDate : ℤ) : List BenchmarkComponent → List BenchmarkComponent
  | [] => []
  | component :: rest =>
    let resolved := resolvedEnd component rest.head?
    if endDate < component.compositionEffectiveFrom then resolveOrdered startDate endDate rest
    else if ∃ e ∈ resolved, e < startDate then resolveOrdered startDate endDate rest
    else { component with compositionEffectiveTo := resolved } ::
      resolveOrdered startDate endDate rest

/-- `sorted(rows, key=composition_effective_from)`. -/
def orderedRows (rows : List BenchmarkComponent) : List BenchmarkComponent :=
  rows.insertionSort fun a b => a.compositionEffectiveFrom ≤ b.compositionEffectiveFrom

def resolveBenchmarkComponentSegments (components : List BenchmarkComponent)
    (startDate endDate : ℤ) : List BenchmarkComponent :=
  ((Grouping.groups BenchmarkComponent.indexId components).flatMap fun rows =>
    resolveOrdered startDate endDate (orderedRows rows)).insertionSort
      fun a b => a.sortKey ≤ b.sortKey

def windowSegments (series : CompositionSeries) (benchmarkId : String) (w : DateWindow)
    : List BenchmarkComponent :=
  resolveBenchmarkComponentSegments
    (listComponentsOverlappingWindow collation series benchmarkId w) w.startDate w.endDate

def coveringSegments (series : CompositionSeries) (benchmarkId : String) (w : DateWindow) (d : ℤ)
    : List BenchmarkComponent :=
  (windowSegments collation series benchmarkId w).filter fun c => c.Covers d

def compositionOn (series : CompositionSeries) (benchmarkId : String) (w : DateWindow) (d : ℤ)
    : List (String × ℚ) :=
  (coveringSegments collation series benchmarkId w d).map fun c => (c.indexId, c.compositionWeight)

/-! ## One index -/

section OneIndex

variable {a : BenchmarkComponent} {next : Option BenchmarkComponent} {startDate endDate d : ℤ}
  {l : List BenchmarkComponent} {x : (ℤ ×ₗ String) × ℚ}

/-- A range that is cut off covers a day when the component does and the next one has not begun. -/
theorem covers_resolvedEnd :
    ({ a with compositionEffectiveTo := resolvedEnd a next } : BenchmarkComponent).Covers d ↔
      a.Covers d ∧ ∀ n ∈ next, d < n.compositionEffectiveFrom := by
  unfold BenchmarkComponent.Covers
  cases next with
  | none => simp [resolvedEnd]
  | some n =>
    cases hto : a.compositionEffectiveTo with
    | none =>
      simp only [resolvedEnd, hto, Option.mem_some_iff, forall_eq', Option.not_mem_none]
      constructor
      · rintro ⟨hfrom, hlast⟩
        exact ⟨⟨hfrom, by simp⟩, by omega⟩
      · rintro ⟨⟨hfrom, -⟩, hnext⟩
        exact ⟨hfrom, by omega⟩
    | some last =>
      simp only [resolvedEnd, hto, Option.mem_some_iff, forall_eq']
      split_ifs with hlast
      · simp only [Option.mem_some_iff, forall_eq']
        omega
      · simp only [Option.mem_some_iff, forall_eq']
        omega

/-- No component of the list has begun between the component and the day. -/
def BegunLastIn (l : List BenchmarkComponent) (d : ℤ) (a : BenchmarkComponent) : Prop :=
  ∀ c ∈ l, c.compositionEffectiveFrom ≤ d → c.compositionEffectiveFrom ≤ a.compositionEffectiveFrom
  deriving Decidable

theorem begunLastIn_cons_self {b : BenchmarkComponent}
    (hb : ∀ c ∈ l, b.compositionEffectiveFrom < c.compositionEffectiveFrom) :
    BegunLastIn (b :: l) d b ↔ ∀ c ∈ l, d < c.compositionEffectiveFrom := by
  constructor
  · intro h c hc
    by_contra hcd
    exact absurd (h c (mem_cons_of_mem _ hc) (not_lt.mp hcd)) (not_le.mpr (hb c hc))
  · intro h c hc hcd
    rcases mem_cons.mp hc with rfl | hc
    · exact le_rfl
    · exact absurd (h c hc) (not_lt.mpr hcd)

theorem begunLastIn_cons {b : BenchmarkComponent}
    (hb : b.compositionEffectiveFrom < a.compositionEffectiveFrom) :
    BegunLastIn (b :: l) d a ↔ BegunLastIn l d a := by
  simp [BegunLastIn, hb.le]

section Increasing

variable (hl : Ordered.Increasing BenchmarkComponent.compositionEffectiveFrom l)

include hl

/-- The next row of an index has not begun exactly when no later one has. -/
theorem forall_mem_head?_lt :
    (∀ n ∈ l.head?, d < n.compositionEffectiveFrom) ↔ ∀ c ∈ l, d < c.compositionEffectiveFrom := by
  cases l with
  | nil => simp
  | cons c rest =>
    have hc := (pairwise_cons.mp hl).1
    constructor
    · intro h n hn
      have hdc : d < c.compositionEffectiveFrom := h c (by simp)
      rcases mem_cons.mp hn with rfl | hn
      · exact hdc
      · exact hdc.trans (hc n hn)
    · intro h n hn
      obtain rfl : c = n := by simpa using hn
      exact h c (by simp)

/-- **One index.** What the loop keeps for a day of the window is the component begun last, if it is
still in force. -/
theorem filter_resolveOrdered (hstart : startDate ≤ d) (hend : d ≤ endDate) :
    ((resolveOrdered startDate endDate l).filter fun c => c.Covers d).map BenchmarkComponent.label =
      (l.filter fun a => a.Covers d ∧ BegunLastIn l d a).map BenchmarkComponent.label := by
  induction l with
  | nil => rfl
  | cons b rest ih =>
    obtain ⟨hb, hrest⟩ := pairwise_cons.mp hl
    have htail : (rest.filter fun a => a.Covers d ∧ BegunLastIn (b :: rest) d a) =
        rest.filter fun a => a.Covers d ∧ BegunLastIn rest d a :=
      filter_congr fun a ha => by simp only [begunLastIn_cons (hb a ha)]
    have hcut : ({ b with compositionEffectiveTo := resolvedEnd b rest.head? } :
        BenchmarkComponent).Covers d ↔ b.Covers d ∧ BegunLastIn (b :: rest) d b := by
      rw [covers_resolvedEnd, forall_mem_head?_lt hrest, begunLastIn_cons_self hb]
    have hdrop : ¬ (b.Covers d ∧ BegunLastIn (b :: rest) d b) →
        ((resolveOrdered startDate endDate rest).filter fun c => c.Covers d).map
            BenchmarkComponent.label =
          ((b :: rest).filter fun a => a.Covers d ∧ BegunLastIn (b :: rest) d a).map
            BenchmarkComponent.label := fun hnot => by
      rw [filter_cons_of_neg (by simpa only [decide_eq_true_iff] using hnot), htail, ih hrest]
    rw [resolveOrdered]
    split_ifs with hlate hearly
    · exact hdrop fun h => absurd (h.1.1.trans hend) (not_le.mpr hlate)
    · refine hdrop fun h => ?_
      obtain ⟨e, he, hlt⟩ := hearly
      exact absurd (hstart.trans ((hcut.mpr h).2 e he)) (not_le.mpr hlt)
    · by_cases hcov : b.Covers d ∧ BegunLastIn (b :: rest) d b
      · rw [filter_cons_of_pos (by simpa only [decide_eq_true_iff] using hcut.mpr hcov),
          filter_cons_of_pos (by simpa only [decide_eq_true_iff] using hcov), map_cons,
          map_cons, htail, ih hrest]
        rfl
      · rw [filter_cons_of_neg
          (by simpa only [decide_eq_true_iff] using fun h => hcov (hcut.mp h))]
        exact hdrop hcov

theorem exists_mem_resolveOrdered (hstart : startDate ≤ d) (hend : d ≤ endDate) :
    (∃ s ∈ resolveOrdered startDate endDate l, s.Covers d ∧ s.label = x) ↔
      ∃ a ∈ l, a.Covers d ∧
        (∀ c ∈ l, c.compositionEffectiveFrom ≤ d →
          c.compositionEffectiveFrom ≤ a.compositionEffectiveFrom) ∧ a.label = x := by
  have h : x ∈ ((resolveOrdered startDate endDate l).filter fun c => c.Covers d).map
        BenchmarkComponent.label ↔
      x ∈ (l.filter fun a => a.Covers d ∧ BegunLastIn l d a).map BenchmarkComponent.label := by
    rw [filter_resolveOrdered hl hstart hend]
  simp only [mem_map, mem_filter, decide_eq_true_iff, and_assoc] at h
  exact h

end Increasing

/-- The loop drops rows and changes where ranges end, nothing else. -/
theorem resolveOrdered_map_sortKey :
    ((resolveOrdered startDate endDate l).map BenchmarkComponent.sortKey).Sublist
      (l.map BenchmarkComponent.sortKey) := by
  induction l with
  | nil => simp [resolveOrdered]
  | cons b rest ih =>
    rw [resolveOrdered]
    split_ifs
    · exact ih.trans (sublist_cons_self _ _)
    · exact ih.trans (sublist_cons_self _ _)
    · exact ih.cons_cons _

end OneIndex

/-! ## All indices -/

section Window

variable {collation : Collation} {series : CompositionSeries} {benchmarkId : String}
  {w : DateWindow} {d : ℤ} {a b : BenchmarkComponent}

theorem mem_listComponentsOverlappingWindow :
    a ∈ listComponentsOverlappingWindow collation series benchmarkId w ↔
      a ∈ series.rows ∧ a.benchmarkId = benchmarkId ∧ w.Overlaps a := by
  rw [listComponentsOverlappingWindow, mem_insertionSort, mem_filter, decide_eq_true_iff]

theorem nodup_sortKey :
    ((listComponentsOverlappingWindow collation series benchmarkId w).map
      BenchmarkComponent.sortKey).Nodup := by
  have hperm := perm_insertionSort (rowOrder collation)
    (series.rows.filter fun c => c.benchmarkId = benchmarkId ∧ w.Overlaps c)
  refine ((hperm.map BenchmarkComponent.sortKey).nodup_iff).mpr ?_
  have hunique := pairwise_map.mp series.unique
  refine pairwise_map.mpr ((hunique.filter _).imp_of_mem fun {a b} ha hb hne => ?_)
  intro heq
  have ha : a.benchmarkId = benchmarkId := by
    have := (mem_filter.mp ha).2
    simp at this
    exact this.1
  have hb : b.benchmarkId = benchmarkId := by
    have := (mem_filter.mp hb).2
    simp at this
    exact this.1
  have hkey : (a.compositionEffectiveFrom, a.indexId) =
      (b.compositionEffectiveFrom, b.indexId) := congrArg ofLex heq
  rw [Prod.mk.injEq] at hkey
  exact hne (by rw [ha, hb, hkey.1, hkey.2])

theorem orderedRows_increasing_of_nodup {rows : List BenchmarkComponent}
    (hnodup : (rows.map BenchmarkComponent.sortKey).Nodup) (index : String) :
    Ordered.Increasing BenchmarkComponent.compositionEffectiveFrom
      (orderedRows (Grouping.rowsOf BenchmarkComponent.indexId rows index)) := by
  have hle : (orderedRows (Grouping.rowsOf BenchmarkComponent.indexId rows index)).Pairwise
      fun a b => a.compositionEffectiveFrom ≤ b.compositionEffectiveFrom :=
    pairwise_insertionSort _ _
  have hperm : (orderedRows (Grouping.rowsOf BenchmarkComponent.indexId rows index)).Perm
      (Grouping.rowsOf BenchmarkComponent.indexId rows index) := perm_insertionSort _ _
  have hne : (orderedRows (Grouping.rowsOf BenchmarkComponent.indexId rows index)).Pairwise
      fun a b => a.sortKey ≠ b.sortKey := by
    rw [← pairwise_map (R := (· ≠ ·)), ← List.Nodup, (hperm.map _).nodup_iff]
    exact hnodup.sublist (filter_sublist.map _)
  refine (hle.and hne).imp_of_mem fun {a b} ha hb h => lt_of_le_of_ne h.1 fun heq => h.2 ?_
  rw [hperm.mem_iff, Grouping.mem_rowsOf] at ha hb
  rw [BenchmarkComponent.sortKey, BenchmarkComponent.sortKey, heq, ha.2, hb.2]

theorem orderedRows_increasing (index : String) :
    Ordered.Increasing BenchmarkComponent.compositionEffectiveFrom
      (orderedRows (Grouping.rowsOf BenchmarkComponent.indexId
        (listComponentsOverlappingWindow collation series benchmarkId w) index)) :=
  orderedRows_increasing_of_nodup nodup_sortKey index

theorem windowSegments_pairwise :
    (windowSegments collation series benchmarkId w).Pairwise fun a b => a.sortKey < b.sortKey := by
  have hle : (windowSegments collation series benchmarkId w).Pairwise
      fun a b => a.sortKey ≤ b.sortKey := pairwise_insertionSort _ _
  have hne : (windowSegments collation series benchmarkId w).Pairwise
      fun a b => a.sortKey ≠ b.sortKey := by
    rw [← pairwise_map (R := (· ≠ ·)), ← List.Nodup, windowSegments,
      resolveBenchmarkComponentSegments,
      ((perm_insertionSort _ _).map BenchmarkComponent.sortKey).nodup_iff, map_flatMap]
    refine Grouping.nodup_flatMap_groups (fun key => (ofLex key).2) ?_ ?_
    · intro index key hkey
      obtain ⟨a, ha, rfl⟩ := mem_map.mp (resolveOrdered_map_sortKey.subset hkey)
      exact (Grouping.mem_rowsOf.mp ((perm_insertionSort _ _).mem_iff.mp ha)).2
    · intro index
      refine List.Nodup.sublist resolveOrdered_map_sortKey ?_
      refine pairwise_map.mpr ((orderedRows_increasing index).imp fun {a b} h heq => ?_)
      exact absurd (congrArg (fun key => (ofLex key).1) heq) h.ne
  exact (hle.and hne).imp fun h => lt_of_le_of_ne h.1 h.2

theorem coveringSegments_pairwise :
    ((coveringSegments collation series benchmarkId w d).map BenchmarkComponent.label).Pairwise
      fun x y => x.1 < y.1 :=
  pairwise_map.mpr (windowSegments_pairwise.filter _)

/-- **What covers a day.** The segments that cover a day of the window come from the rows in force
that day after which no selected row of the index has begun. -/
theorem mem_coveringSegments (hd : w.Contains d) {x : (ℤ ×ₗ String) × ℚ} :
    x ∈ (coveringSegments collation series benchmarkId w d).map BenchmarkComponent.label ↔
      ∃ a ∈ series.rows, a.benchmarkId = benchmarkId ∧ a.Covers d ∧
        (∀ c ∈ series.rows, c.benchmarkId = benchmarkId → c.indexId = a.indexId → w.Overlaps c →
          c.compositionEffectiveFrom ≤ d →
            c.compositionEffectiveFrom ≤ a.compositionEffectiveFrom) ∧
        a.label = x := by
  have hrows : ∀ (index : String) (c : BenchmarkComponent),
      c ∈ orderedRows (Grouping.rowsOf BenchmarkComponent.indexId
        (listComponentsOverlappingWindow collation series benchmarkId w) index) ↔
      (c ∈ series.rows ∧ c.benchmarkId = benchmarkId ∧ w.Overlaps c) ∧ c.indexId = index := by
    intro index c
    rw [orderedRows, mem_insertionSort, Grouping.mem_rowsOf,
      mem_listComponentsOverlappingWindow]
  have hsegments : x ∈ (coveringSegments collation series benchmarkId w d).map
        BenchmarkComponent.label ↔
      ∃ rows ∈ Grouping.groups BenchmarkComponent.indexId
          (listComponentsOverlappingWindow collation series benchmarkId w),
        ∃ s ∈ resolveOrdered w.startDate w.endDate (orderedRows rows),
          s.Covers d ∧ s.label = x := by
    simp only [coveringSegments, windowSegments, resolveBenchmarkComponentSegments, mem_map,
      mem_filter, mem_insertionSort, mem_flatMap, decide_eq_true_iff]
    constructor
    · rintro ⟨s, ⟨⟨rows, hrows, hs⟩, hcov⟩, hx⟩
      exact ⟨rows, hrows, s, hs, hcov, hx⟩
    · rintro ⟨rows, hrows, s, hs, hcov, hx⟩
      exact ⟨s, ⟨⟨rows, hrows, hs⟩, hcov⟩, hx⟩
  rw [hsegments]
  constructor
  · rintro ⟨rows, hgroup, hs⟩
    obtain ⟨first, -, rfl⟩ := Grouping.mem_groups.mp hgroup
    obtain ⟨a, ha, hcov, hlast, hx⟩ :=
      (exists_mem_resolveOrdered (orderedRows_increasing _) hd.1 hd.2).mp hs
    obtain ⟨⟨hstored, hbenchmark, -⟩, hindex⟩ := (hrows _ a).mp ha
    refine ⟨a, hstored, hbenchmark, hcov, fun c hc hcb hci hco hcd => ?_, hx⟩
    exact hlast c ((hrows _ c).mpr ⟨⟨hc, hcb, hco⟩, hci.trans hindex⟩) hcd
  · rintro ⟨a, hstored, hbenchmark, hcov, hlast, hx⟩
    have hselected : a ∈ listComponentsOverlappingWindow collation series benchmarkId w :=
      mem_listComponentsOverlappingWindow.mpr
        ⟨hstored, hbenchmark, DateWindow.overlaps_of_covers hd hcov⟩
    refine ⟨_, Grouping.mem_groups.mpr ⟨a, hselected, rfl⟩, ?_⟩
    refine (exists_mem_resolveOrdered (orderedRows_increasing _) hd.1 hd.2).mpr
      ⟨a, (hrows _ a).mpr ⟨⟨hstored, hbenchmark, DateWindow.overlaps_of_covers hd hcov⟩, rfl⟩, hcov,
        fun c hc hcd => ?_, hx⟩
    obtain ⟨⟨hc, hcb, hco⟩, hci⟩ := (hrows _ c).mp hc
    exact hlast c hc hcb hci hco hcd

end Window

end LotusCore.Benchmark
