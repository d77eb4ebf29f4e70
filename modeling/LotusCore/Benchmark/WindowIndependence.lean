import LotusCore.Benchmark.Composition

/-!
# Does the composition of a day depend on the window it is read through?

The query leaves out the rows that ended before the window, and the resolver then no longer sees
that they had cut off an older row of the index. **`composition_window_independent_iff`** says when
this shows: the windows agree about a day exactly when, for every index with a row in force that
day, the row begun last is itself in force.
-/

namespace LotusCore.Benchmark

open List

variable {collation : Collation} {series : CompositionSeries} {benchmarkId : String}
  {w : DateWindow} {d : ℤ} {a b : BenchmarkComponent}

/-- Among the rows of the benchmark, the one of its index begun last by the day. -/
def BegunLast (series : CompositionSeries) (benchmarkId : String) (d : ℤ)
    (a : BenchmarkComponent) : Prop :=
  ∀ c ∈ series.rows, c.benchmarkId = benchmarkId → c.indexId = a.indexId →
    c.compositionEffectiveFrom ≤ d → c.compositionEffectiveFrom ≤ a.compositionEffectiveFrom

/-- Whenever a row of an index is in force on the day, so is the row of the index begun last. -/
def LastBegunInForce (series : CompositionSeries) (benchmarkId : String) (d : ℤ) : Prop :=
  ∀ a ∈ series.rows, a.benchmarkId = benchmarkId → a.Covers d →
    ∃ b ∈ series.rows, b.benchmarkId = benchmarkId ∧ b.indexId = a.indexId ∧ b.Covers d ∧
      BegunLast series benchmarkId d b

/-- Two windows show the same for a day when the same labels cover it. -/
theorem compositionOn_congr {v : DateWindow}
    (h : ∀ x, x ∈ (coveringSegments collation series benchmarkId w d).map BenchmarkComponent.label ↔
      x ∈ (coveringSegments collation series benchmarkId v d).map BenchmarkComponent.label) :
    compositionOn collation series benchmarkId w d =
      compositionOn collation series benchmarkId v d := by
  have hnodup : ∀ u : DateWindow,
      ((coveringSegments collation series benchmarkId u d).map BenchmarkComponent.label).Nodup :=
    fun u => coveringSegments_pairwise.imp fun {x y} hlt heq => absurd (heq ▸ hlt) (lt_irrefl _)
  have hlabels : (coveringSegments collation series benchmarkId w d).map BenchmarkComponent.label =
      (coveringSegments collation series benchmarkId v d).map BenchmarkComponent.label := by
    have hperm := (perm_ext_iff_of_nodup (hnodup w) (hnodup v)).mpr h
    refine hperm.eq_of_pairwise (fun x y _ _ hxy hyx => ?_) coveringSegments_pairwise
      coveringSegments_pairwise
    exact absurd (hxy.trans hyx) (lt_irrefl _)
  have hpairs : ∀ u : DateWindow, compositionOn collation series benchmarkId u d =
      ((coveringSegments collation series benchmarkId u d).map BenchmarkComponent.label).map
        fun x => ((ofLex x.1).2, x.2) := fun u => by
    rw [compositionOn, map_map]
    rfl
  rw [hpairs, hpairs, hlabels]

theorem compositionOn_map_fst : (compositionOn collation series benchmarkId w d).map Prod.fst =
    ((coveringSegments collation series benchmarkId w d).map BenchmarkComponent.label).map
      fun x => (ofLex x.1).2 := by
  rw [compositionOn, map_map, map_map]
  rfl

theorem mem_compositionOn_map_fst (hd : w.Contains d) {index : String} :
    index ∈ (compositionOn collation series benchmarkId w d).map Prod.fst ↔
      ∃ a ∈ series.rows, a.benchmarkId = benchmarkId ∧ a.indexId = index ∧ a.Covers d ∧
        ∀ c ∈ series.rows, c.benchmarkId = benchmarkId → c.indexId = index → w.Overlaps c →
          c.compositionEffectiveFrom ≤ d →
            c.compositionEffectiveFrom ≤ a.compositionEffectiveFrom := by
  rw [compositionOn_map_fst, mem_map]
  constructor
  · rintro ⟨x, hx, rfl⟩
    obtain ⟨a, ha, hab, hcov, hlast, rfl⟩ := (mem_coveringSegments hd).mp hx
    exact ⟨a, ha, hab, rfl, hcov, hlast⟩
  · rintro ⟨a, ha, hab, rfl, hcov, hlast⟩
    exact ⟨a.label, (mem_coveringSegments hd).mpr ⟨a, ha, hab, hcov, hlast, rfl⟩, rfl⟩

theorem compositionOn_nodup (hd : w.Contains d) :
    ((compositionOn collation series benchmarkId w d).map Prod.fst).Nodup := by
  rw [compositionOn_map_fst, List.Nodup, pairwise_map]
  refine coveringSegments_pairwise.imp_of_mem fun {x y} hx hy hlt heq => ?_
  obtain ⟨a, ha, hab, hcov, hlast, rfl⟩ := (mem_coveringSegments hd).mp hx
  obtain ⟨b, hb, hbb, hcov', hlast', rfl⟩ := (mem_coveringSegments hd).mp hy
  -- two rows of one index that are both the last begun begin on the same day
  have hindex : a.indexId = b.indexId := heq
  have hfrom : a.compositionEffectiveFrom = b.compositionEffectiveFrom :=
    le_antisymm (hlast' a ha hab hindex (DateWindow.overlaps_of_covers hd hcov) hcov.1)
      (hlast b hb hbb hindex.symm (DateWindow.overlaps_of_covers hd hcov') hcov'.1)
  have hkey : a.sortKey = b.sortKey := by
    rw [BenchmarkComponent.sortKey, BenchmarkComponent.sortKey, hfrom, hindex]
  exact absurd hkey hlt.ne

/-- When the row begun last is in force, it alone is what every window shows of its index. -/
theorem mem_covering_iff_begunLast (h : LastBegunInForce series benchmarkId d)
    (hd : w.Contains d) {x : (ℤ ×ₗ String) × ℚ} :
    x ∈ (coveringSegments collation series benchmarkId w d).map BenchmarkComponent.label ↔
      ∃ a ∈ series.rows, a.benchmarkId = benchmarkId ∧ a.Covers d ∧
        BegunLast series benchmarkId d a ∧ a.label = x := by
  rw [mem_coveringSegments hd]
  constructor
  · rintro ⟨a, ha, hab, hcov, hlast, hx⟩
    obtain ⟨b, hb, hbb, hindex, hcov', hbegun⟩ := h a ha hab hcov
    have hle := hlast b hb hbb hindex (DateWindow.overlaps_of_covers hd hcov') hcov'.1
    refine ⟨a, ha, hab, hcov, fun c hc hcb hci hcd => ?_, hx⟩
    exact (hbegun c hc hcb (hci.trans hindex.symm) hcd).trans hle
  · rintro ⟨a, ha, hab, hcov, hbegun, hx⟩
    exact ⟨a, ha, hab, hcov, fun c hc hcb hci _ hcd => hbegun c hc hcb hci hcd, hx⟩

/-- A day before which no row has ended, and not after the given day. -/
theorem exists_early_start (rows : List BenchmarkComponent) (d : ℤ) :
    ∃ s ≤ d, ∀ c ∈ rows, ∀ e ∈ c.compositionEffectiveTo, s ≤ e := by
  induction rows with
  | nil => exact ⟨d, le_rfl, by simp⟩
  | cons c rows ih =>
    obtain ⟨s, hsd, hs⟩ := ih
    refine ⟨min s (c.compositionEffectiveTo.getD s), (min_le_left _ _).trans hsd, ?_⟩
    intro b hb e he
    rcases mem_cons.mp hb with rfl | hb
    · rw [Option.mem_def.mp he, Option.getD_some]
      exact min_le_right _ _
    · exact (min_le_left _ _).trans (hs b hb e he)

/-- **Two windows agree about a day exactly when, for every index with a row in force that day, the
row begun last is in force.** An index is then shown at most once. -/
theorem composition_window_independent_iff (collation : Collation) (series : CompositionSeries)
    (benchmarkId : String) (d : ℤ) :
    (∀ w v : DateWindow, w.Contains d → v.Contains d →
      compositionOn collation series benchmarkId w d =
        compositionOn collation series benchmarkId v d ∧
      ((compositionOn collation series benchmarkId w d).map Prod.fst).Nodup) ↔
    LastBegunInForce series benchmarkId d := by
  constructor
  · intro h a ha hab hcov
    -- the window of the one day sees only rows in force, so it shows the index of `a`
    let day : DateWindow := ⟨d, d, le_rfl⟩
    have hday : day.Contains d := ⟨le_rfl, le_rfl⟩
    obtain ⟨s, hsd, hs⟩ := exists_early_start series.rows d
    let whole : DateWindow := ⟨s, d, hsd⟩
    have hwhole : whole.Contains d := ⟨hsd, le_rfl⟩
    have hshown : a.indexId ∈ (compositionOn collation series benchmarkId day d).map Prod.fst := by
      rw [mem_compositionOn_map_fst hday]
      obtain ⟨b, hb⟩ : ∃ b, Ordered.latest BenchmarkComponent.compositionEffectiveFrom
          (series.rows.filter fun c =>
            c.benchmarkId = benchmarkId ∧ c.indexId = a.indexId ∧ c.Covers d) = some b := by
        refine Option.ne_none_iff_exists'.mp fun hnone => ?_
        rw [Ordered.latest_eq_none, filter_eq_nil_iff] at hnone
        exact hnone a ha (by simp [hab, hcov])
      have hmem := Ordered.latest_mem hb
      rw [mem_filter, decide_eq_true_iff] at hmem
      refine ⟨b, hmem.1, hmem.2.1, hmem.2.2.1, hmem.2.2.2, fun c hc hcb hci hco hcd => ?_⟩
      refine Ordered.le_latest hb (mem_filter.mpr ⟨hc, ?_⟩)
      rw [decide_eq_true_iff]
      exact ⟨hcb, hci, hcd, hco.2⟩
    rw [(h day whole hday hwhole).1, mem_compositionOn_map_fst hwhole] at hshown
    obtain ⟨b, hb, hbb, hindex, hcov', hlast⟩ := hshown
    refine ⟨b, hb, hbb, hindex, hcov', fun c hc hcb hci hcd => ?_⟩
    exact hlast c hc hcb (hci.trans hindex) ⟨hcd, hs c hc⟩ hcd
  · intro h w v hw hv
    refine ⟨compositionOn_congr fun x => ?_, compositionOn_nodup hw⟩
    rw [mem_covering_iff_begunLast h hw, mem_covering_iff_begunLast h hv]

/-- An index held without end, and for a while with another weight. -/
def overriddenSeries : CompositionSeries where
  rows := [⟨"B", "I", 0, none, 1, none⟩, ⟨"B", "I", 10, some 19, 1 / 2, none⟩]
  unique := by decide

/-- Read from day 0 on, the index has left the benchmark by day 30; read for day 30 alone, it is
there with its first weight. -/
theorem overridden_window_dependent :
    compositionOn codePointOrder overriddenSeries "B" ⟨0, 30, by decide⟩ 30 = [] ∧
    compositionOn codePointOrder overriddenSeries "B" ⟨30, 30, by decide⟩ 30 = [("I", 1)] := by
  decide +kernel

end LotusCore.Benchmark
