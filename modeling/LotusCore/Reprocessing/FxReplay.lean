import LotusCore.Data.FallbackRegister
import LotusCore.Data.Ordered
import LotusCore.Transaction.Types
import Mathlib.Data.Prod.Lex
import Mathlib.Order.Bounds.Basic

/-!
# Coalesced FX replays

The valid replay requests of one currency pair. A partial unique index allows one pending job for
the pair, so a request is inserted or coalesced with the job there is. In memory, retained requests
are merged all at once.

* `mergeReplaySiblingEvidence`: the merge of a request with its siblings.
* `stagePendingFxRevaluationJob`: the upsert.
* `stageAll_cons`: the source and the lineage of the pending job are a register with a fallback.
* **`fx_replay_coalescing_iff`**: the requests give the merged job in every order exactly when their
  correlation ids agree or the requests with the latest source all have the same one.
-/

namespace LotusCore.Reprocessing

open FallbackRegister List

/-! ## Requests -/

/-- `normalize_lineage_value`, and the same cases in the upsert. -/
def normalizeLineageValue (value : Option String) : Option String :=
  value.bind fun text =>
    if strip text = "" ∨ lower (strip text) = "<not-set>" then none else some (strip text)

/-- A replay request of the pair, and the pending job. -/
structure FxReplay where
  earliestImpactedDate : ℤ
  generatedAt : ℤ
  contentHash : String
  attemptCount : ℕ
  correlationId : Option String
  correlationMissingReason : Option String
  alternateLookupKey : Option String
  deriving DecidableEq

/-- `_fx_source_key`. -/
def FxReplay.sourceKey (r : FxReplay) : ℤ ×ₗ String := toLex (r.generatedAt, r.contentHash)

/-- `validated_effective_dated_replay_identity` of a valid request. -/
def validatedFxReplay (r : FxReplay) : FxReplay :=
  let correlationId := normalizeLineageValue r.correlationId
  { r with
    correlationId := correlationId
    correlationMissingReason := if correlationId.isSome then none else r.correlationMissingReason
    alternateLookupKey := if correlationId.isSome then none else r.alternateLookupKey }

/-! ## The merge -/

/-- `_latest_valid_fx_source`: the latest source, with the lineage of the latest source that has one
when it has none. -/
def latestValidFxSource (identity : FxReplay) (siblings : List FxReplay) : FxReplay :=
  let candidates := identity :: siblings.map validatedFxReplay
  match Ordered.latest FxReplay.sourceKey candidates with
  | none => identity
  | some source =>
    if source.correlationId.isSome then source
    else
      match Ordered.latest FxReplay.sourceKey
          (candidates.filter fun candidate => candidate.correlationId.isSome) with
      | none => source
      | some lineageSource =>
        { source with
          correlationId := lineageSource.correlationId
          correlationMissingReason := lineageSource.correlationMissingReason
          alternateLookupKey := lineageSource.alternateLookupKey }

/-- `merge_replay_sibling_evidence` for FX replays. -/
def mergeReplaySiblingEvidence (identity : FxReplay) (siblings : List FxReplay) : FxReplay :=
  { latestValidFxSource identity siblings with
    earliestImpactedDate :=
      (siblings.map FxReplay.earliestImpactedDate).foldl min identity.earliestImpactedDate
    attemptCount := (siblings.map FxReplay.attemptCount).foldl max identity.attemptCount }

/-! ## The upsert -/

/-- What the conflict clause of the upsert sets. -/
def FxReplay.coalesce (job r : FxReplay) : FxReplay :=
  let retained := normalizeLineageValue job.correlationId
  let newer := job.sourceKey < r.sourceKey
  { earliestImpactedDate := min job.earliestImpactedDate r.earliestImpactedDate
    contentHash := if newer then r.contentHash else job.contentHash
    generatedAt := if newer then r.generatedAt else job.generatedAt
    attemptCount := max job.attemptCount r.attemptCount
    correlationId :=
      if newer then r.correlationId.or retained else retained.or r.correlationId
    correlationMissingReason :=
      if (r.correlationId.or retained).isSome then none
      else if newer then r.correlationMissingReason else job.correlationMissingReason
    alternateLookupKey :=
      if (r.correlationId.or retained).isSome then none
      else if newer then r.alternateLookupKey else job.alternateLookupKey }

/-- `stage_pending_fx_revaluation_job`; the pending job is a valid one, so there is nothing to
quarantine and the request is merged with no sibling. -/
def stagePendingFxRevaluationJob (pending : Option FxReplay) (request : FxReplay) : FxReplay :=
  let identity := mergeReplaySiblingEvidence (validatedFxReplay request) []
  match pending with
  | none => identity
  | some job => job.coalesce identity

def stageAll (requests : List FxReplay) : Option FxReplay :=
  requests.foldl (fun pending r => some (stagePendingFxRevaluationJob pending r)) none

/-! ## Lineage as a register -/

theorem normalizeLineageValue_idem (value : Option String) :
    normalizeLineageValue (normalizeLineageValue value) = normalizeLineageValue value := by
  cases value with
  | none => rfl
  | some text =>
    simp only [normalizeLineageValue, Option.bind_some]
    split_ifs with h
    · rfl
    · rw [Option.bind_some, strip_strip, if_neg h]

/-- The source of a request with its lineage. -/
def FxReplay.entry (r : FxReplay) : (ℤ ×ₗ String) × Option String :=
  (r.sourceKey, normalizeLineageValue r.correlationId)

section Merge

variable {identity r job : FxReplay} {siblings : List FxReplay}

@[simp] theorem validatedFxReplay_entry : (validatedFxReplay r).entry = r.entry :=
  Prod.ext rfl (normalizeLineageValue_idem _)

theorem mergeReplaySiblingEvidence_nil : mergeReplaySiblingEvidence identity [] = identity := by
  have hlatest : Ordered.latest FxReplay.sourceKey [identity] = some identity :=
    argmax_singleton
  have hsource : latestValidFxSource identity [] = identity := by
    unfold latestValidFxSource
    rw [map_nil]
    simp only [hlatest]
    split_ifs with hsome
    · rfl
    · have hfilter : [identity].filter (fun c => c.correlationId.isSome) = [] := by simp [hsome]
      rw [hfilter]
      rfl
  unfold mergeReplaySiblingEvidence
  rw [hsource]
  rfl

theorem coalesce_sourceKey : (job.coalesce r).sourceKey = max job.sourceKey r.sourceKey := by
  by_cases hnewer : job.sourceKey < r.sourceKey
  · have hat : (job.coalesce r).generatedAt = r.generatedAt := if_pos hnewer
    have hhash : (job.coalesce r).contentHash = r.contentHash := if_pos hnewer
    rw [max_eq_right hnewer.le, FxReplay.sourceKey, hat, hhash]
    rfl
  · have hat : (job.coalesce r).generatedAt = job.generatedAt := if_neg hnewer
    have hhash : (job.coalesce r).contentHash = job.contentHash := if_neg hnewer
    rw [max_eq_left (not_lt.mp hnewer), FxReplay.sourceKey, hat, hhash]
    rfl

theorem coalesce_entry (hjob : normalizeLineageValue job.correlationId = job.correlationId)
    (hr : normalizeLineageValue r.correlationId = r.correlationId) :
    (job.coalesce r).entry = put job.entry r.entry ∧
      normalizeLineageValue (job.coalesce r).correlationId = (job.coalesce r).correlationId := by
  have hor : ∀ a b : Option String, normalizeLineageValue a = a → normalizeLineageValue b = b →
      normalizeLineageValue (a.or b) = a.or b := by
    rintro (_ | a) b ha hb
    · exact hb
    · exact ha
  have hcorrelation : normalizeLineageValue (job.coalesce r).correlationId =
      (job.coalesce r).correlationId := by
    simp only [FxReplay.coalesce, hjob]
    split_ifs
    · exact hor _ _ hr hjob
    · exact hor _ _ hjob hr
  refine ⟨?_, hcorrelation⟩
  unfold FxReplay.entry put
  rw [hcorrelation, hjob, hr]
  by_cases hnewer : job.sourceKey < r.sourceKey
  · rw [if_pos hnewer, coalesce_sourceKey, max_eq_right hnewer.le]
    simp only [FxReplay.coalesce, hjob, if_pos hnewer]
  · rw [if_neg hnewer, coalesce_sourceKey, max_eq_left (not_lt.mp hnewer)]
    simp only [FxReplay.coalesce, hjob, if_neg hnewer]

end Merge

theorem stageAll_cons (first : FxReplay) (rest : List FxReplay) :
    ∃ job, stageAll (first :: rest) = some job ∧
      normalizeLineageValue job.correlationId = job.correlationId ∧
      job.entry = keep first.entry (rest.map FxReplay.entry) ∧
      job.earliestImpactedDate =
        (rest.map FxReplay.earliestImpactedDate).foldl min first.earliestImpactedDate ∧
      job.attemptCount = (rest.map FxReplay.attemptCount).foldl max first.attemptCount := by
  -- the induction is on the last request
  induction rest using List.reverseRecOn with
  | nil =>
    refine ⟨validatedFxReplay first, ?_, normalizeLineageValue_idem _, validatedFxReplay_entry, rfl,
      rfl⟩
    exact congrArg some mergeReplaySiblingEvidence_nil
  | append_singleton rest r ih =>
    obtain ⟨job, hjob, hnormal, hentry, hdate, hattempts⟩ := ih
    have hstage : stageAll (first :: (rest ++ [r])) =
        some (job.coalesce (validatedFxReplay r)) := by
      unfold stageAll at hjob ⊢
      rw [← cons_append, foldl_append, hjob]
      exact congrArg (fun x => some (job.coalesce x)) mergeReplaySiblingEvidence_nil
    have hr : normalizeLineageValue (validatedFxReplay r).correlationId =
        (validatedFxReplay r).correlationId := normalizeLineageValue_idem r.correlationId
    obtain ⟨hput, hnormal'⟩ := coalesce_entry hnormal hr
    refine ⟨_, hstage, hnormal', ?_, ?_, ?_⟩
    · rw [hput, hentry, validatedFxReplay_entry, keep, keep, map_append, foldl_append]
      rfl
    · rw [map_append, foldl_append, ← hdate]
      rfl
    · rw [map_append, foldl_append, ← hattempts]
      rfl

/-! ## The merge of all requests -/

/-- What is merged for a list of requests. -/
structure FxReplay.IsMerge (job : FxReplay) (requests : List FxReplay) : Prop where
  date_least : IsLeast {d | ∃ r ∈ requests, r.earliestImpactedDate = d} job.earliestImpactedDate
  source_greatest : IsGreatest {k | ∃ r ∈ requests, r.sourceKey = k} job.sourceKey
  attempts_greatest : IsGreatest {n | ∃ r ∈ requests, r.attemptCount = n} job.attemptCount

section Extremes

variable {α β : Type*} [LinearOrder β] (f : α → β) (a : α) (l : List α)

theorem isGreatest_foldl_max :
    IsGreatest {d | ∃ r ∈ a :: l, f r = d} ((l.map f).foldl max (f a)) := by
  induction l using List.reverseRecOn with
  | nil => exact ⟨⟨a, by simp, rfl⟩, by rintro d ⟨r, hr, rfl⟩; rw [mem_singleton.mp hr]; rfl⟩
  | append_singleton l b ih =>
    obtain ⟨⟨r, hr, hmem⟩, hub⟩ := ih
    rw [map_append, foldl_append, ← hmem]
    have hgreatest : ∀ r' ∈ a :: (l ++ [b]), f r' ≤ max (f r) (f b) := by
      intro r' hr'
      rw [← cons_append] at hr'
      rcases mem_append.mp hr' with hr' | hr'
      · exact (hub ⟨r', hr', rfl⟩).trans (hmem ▸ le_max_left _ _)
      · rw [mem_singleton.mp hr']
        exact le_max_right _ _
    refine ⟨?_, by rintro d ⟨r', hr', rfl⟩; exact hgreatest r' hr'⟩
    rcases max_choice (f r) (f b) with h | h
    · exact ⟨r, by simp only [mem_cons, mem_append] at hr ⊢; tauto, h.symm⟩
    · exact ⟨b, by simp, h.symm⟩

theorem isLeast_foldl_min :
    IsLeast {d | ∃ r ∈ a :: l, f r = d} ((l.map f).foldl min (f a)) :=
  isGreatest_foldl_max (fun r => OrderDual.toDual (f r)) a l

end Extremes

theorem stageAll_isMerge {requests order : List FxReplay} (hne : requests ≠ [])
    (h : order.Perm requests) :
    ∃ job, stageAll order = some job ∧ job.IsMerge requests ∧
      keepAll (order.map FxReplay.entry) = some (job.sourceKey, job.correlationId) := by
  obtain ⟨first, rest, rfl⟩ : ∃ first rest, order = first :: rest := by
    cases order with
    | nil => exact absurd h.symm.eq_nil hne
    | cons first rest => exact ⟨first, rest, rfl⟩
  obtain ⟨job, hjob, hnormal, hentry, hdate, hattempts⟩ := stageAll_cons first rest
  have hset : ∀ {β : Type} (f : FxReplay → β),
      {d | ∃ r ∈ requests, f r = d} = {d | ∃ r ∈ first :: rest, f r = d} := by
    intro β f
    ext d
    exact exists_congr fun r => and_congr_left fun _ => h.mem_iff.symm
  have hkeep : (job.sourceKey, job.correlationId) = keep first.entry (rest.map FxReplay.entry) := by
    rw [← hentry, FxReplay.entry, hnormal]
  refine ⟨job, hjob, ⟨?_, ?_, ?_⟩, ?_⟩
  · rw [hset, hdate]
    exact isLeast_foldl_min FxReplay.earliestImpactedDate first rest
  · rw [hset]
    have hkey : job.sourceKey = (keep first.entry (rest.map FxReplay.entry)).1 := by rw [← hkeep]
    rw [hkey]
    constructor
    · obtain ⟨e, he, hek⟩ := keep_key_mem (a := first.entry) (l := rest.map FxReplay.entry)
      rw [← map_cons] at he
      obtain ⟨r, hr, rfl⟩ := mem_map.mp he
      exact ⟨r, hr, hek⟩
    · rintro k ⟨r, hr, rfl⟩
      have he : r.entry ∈ first.entry :: rest.map FxReplay.entry := by
        rw [← map_cons]
        exact mem_map_of_mem hr
      exact le_keep_key he
  · rw [hset, hattempts]
    exact isGreatest_foldl_max FxReplay.attemptCount first rest
  · rw [hkeep]
    rfl

section Candidates

variable (identity : FxReplay) (siblings : List FxReplay)

/-- The latest source of the candidates of a merge, and the lineage it is given. -/
theorem latestValidFxSource_cases :
    ∃ source, Ordered.latest FxReplay.sourceKey (identity :: siblings.map validatedFxReplay) =
        some source ∧
      (latestValidFxSource identity siblings).sourceKey = source.sourceKey ∧
      ((latestValidFxSource identity siblings).correlationId = source.correlationId ∧
          (source.correlationId = none →
            ∀ c ∈ identity :: siblings.map validatedFxReplay, c.correlationId = none) ∨
        source.correlationId = none ∧
          ∃ c ∈ identity :: siblings.map validatedFxReplay, c.correlationId.isSome ∧
            (latestValidFxSource identity siblings).correlationId = c.correlationId) := by
  cases hlatest : Ordered.latest FxReplay.sourceKey
      (identity :: siblings.map validatedFxReplay) with
  | none => cases Ordered.latest_eq_none.mp hlatest
  | some source =>
    refine ⟨source, rfl, ?_⟩
    unfold latestValidFxSource
    simp only [hlatest]
    split_ifs with hsome
    · refine ⟨rfl, .inl ⟨rfl, fun hnone => ?_⟩⟩
      rw [hnone] at hsome
      cases hsome
    · cases hlineage : Ordered.latest FxReplay.sourceKey
          ((identity :: siblings.map validatedFxReplay).filter fun c => c.correlationId.isSome) with
      | none =>
        refine ⟨rfl, .inl ⟨rfl, fun _ c hc => ?_⟩⟩
        have hempty := filter_eq_nil_iff.mp (Ordered.latest_eq_none.mp hlineage) c hc
        exact Option.not_isSome_iff_eq_none.mp hempty
      | some lineage =>
        obtain ⟨hmem, hlsome⟩ := mem_filter.mp (Ordered.latest_mem hlineage)
        exact ⟨rfl, .inr ⟨Option.not_isSome_iff_eq_none.mp hsome, lineage, hmem, hlsome, rfl⟩⟩

end Candidates

section Pick

variable (first : FxReplay) (rest : List FxReplay)

theorem merge_isMerge :
    (mergeReplaySiblingEvidence (validatedFxReplay first) rest).IsMerge (first :: rest) := by
  refine ⟨isLeast_foldl_min FxReplay.earliestImpactedDate first rest, ?_,
    isGreatest_foldl_max FxReplay.attemptCount first rest⟩
  obtain ⟨source, hlatest, hkey, -⟩ := latestValidFxSource_cases (validatedFxReplay first) rest
  rw [← map_cons] at hlatest
  have hmerged : (mergeReplaySiblingEvidence (validatedFxReplay first) rest).sourceKey =
      source.sourceKey := hkey
  rw [hmerged]
  constructor
  · obtain ⟨r, hr, rfl⟩ := mem_map.mp (Ordered.latest_mem hlatest)
    exact ⟨r, hr, rfl⟩
  · rintro k ⟨r, hr, rfl⟩
    have hmem : validatedFxReplay r ∈ (first :: rest).map validatedFxReplay :=
      mem_map_of_mem hr
    have hle : (validatedFxReplay r).sourceKey ≤ source.sourceKey :=
      Ordered.le_latest hlatest hmem
    exact hle

theorem exists_order_of_merge :
    ∃ l x, l.Perm ((first :: rest).map FxReplay.entry) ∧ keepAll l = some x ∧
      x.2 = (mergeReplaySiblingEvidence (validatedFxReplay first) rest).correlationId := by
  obtain ⟨source, hlatest, -, hcases⟩ := latestValidFxSource_cases (validatedFxReplay first) rest
  rw [← map_cons] at hlatest hcases
  have hmerged : (mergeReplaySiblingEvidence (validatedFxReplay first) rest).correlationId =
      (latestValidFxSource (validatedFxReplay first) rest).correlationId := rfl
  rw [hmerged]
  obtain ⟨s, hs, rfl⟩ := mem_map.mp (Ordered.latest_mem hlatest)
  have htop : Top ((first :: rest).map FxReplay.entry) s.entry := by
    refine ⟨mem_map_of_mem hs, ?_⟩
    intro e he
    obtain ⟨r, hr, rfl⟩ := mem_map.mp he
    have hmem : validatedFxReplay r ∈ (first :: rest).map validatedFxReplay :=
      mem_map_of_mem hr
    have hle : (validatedFxReplay r).sourceKey ≤ (validatedFxReplay s).sourceKey :=
      Ordered.le_latest hlatest hmem
    exact hle
  rcases hcases with ⟨heq, hnone⟩ | ⟨hnone, c, hc, hsome, heq⟩
  · rw [heq]
    cases hval : (validatedFxReplay s).correlationId with
    | some v => exact exists_perm_of_top_some htop hval
    | none =>
      refine ⟨_, _, .refl _, rfl, keep_value_none.mpr ?_⟩
      intro e he
      rw [← map_cons] at he
      obtain ⟨r, hr, rfl⟩ := mem_map.mp he
      exact hnone hval _ (mem_map_of_mem hr)
  · rw [heq]
    obtain ⟨r, hr, rfl⟩ := mem_map.mp hc
    obtain ⟨v, hv⟩ := Option.isSome_iff_exists.mp hsome
    rw [hv]
    exact exists_perm_of_top_none htop hnone (mem_map_of_mem hr) hv

end Pick

/-- **Coalescing FX replays.** Staged in any order the requests give one pending job with the least
date, the latest source and the most attempts; its lineage is that of the merge in every order
exactly when the correlation ids agree or the latest source brings one, always the same. -/
theorem fx_replay_coalescing_iff (first : FxReplay) (rest : List FxReplay) :
    let requests := first :: rest
    let merged := mergeReplaySiblingEvidence (validatedFxReplay first) rest
    merged.IsMerge requests ∧
    (∀ order : List FxReplay, order.Perm requests →
      ∃ job, stageAll order = some job ∧ job.IsMerge requests) ∧
    ((∀ order : List FxReplay, order.Perm requests →
        ∃ job, stageAll order = some job ∧ job.correlationId = merged.correlationId) ↔
      Agree (requests.map FxReplay.entry)) := by
  intro requests merged
  have hne : requests ≠ [] := cons_ne_nil _ _
  refine ⟨merge_isMerge first rest, ?_, ?_, ?_⟩
  · intro order horder
    obtain ⟨job, hjob, hmerge, -⟩ := stageAll_isMerge hne horder
    exact ⟨job, hjob, hmerge⟩
  · intro h
    refine keep_value_unique_iff.mp ⟨merged.correlationId, fun l x hl hx => ?_⟩
    -- every order of the entries is an order of the requests
    have hrel : List.Forall₂ (fun e r => e = FxReplay.entry r) (requests.map FxReplay.entry)
        requests := forall₂_map_left_iff.mpr (forall₂_same.mpr fun _ _ => rfl)
    obtain ⟨order, hforall, horder⟩ := perm_comp_forall₂ hl hrel
    obtain ⟨job, hjob, hcorrelation⟩ := h order horder
    obtain ⟨job', hjob', -, hkeep⟩ := stageAll_isMerge hne horder
    obtain rfl : job = job' := Option.some.inj (hjob.symm.trans hjob')
    have hl' : l = order.map FxReplay.entry := by
      rw [← forall₂_eq_eq_eq, forall₂_map_right_iff]
      exact hforall
    rw [hl', hkeep] at hx
    cases hx
    exact hcorrelation
  · intro hagree order horder
    obtain ⟨job, hjob, -, hkeep⟩ := stageAll_isMerge hne horder
    obtain ⟨v, hv⟩ := keep_value_unique_iff.mpr hagree
    obtain ⟨l, x, hl, hx, hmerged⟩ := exists_order_of_merge first rest
    refine ⟨job, hjob, ?_⟩
    have hjobv : job.correlationId = v := hv _ _ (horder.map FxReplay.entry) hkeep
    rw [hjobv, ← hv l x hl hx]
    exact hmerged

/-- The latest of three sources has no lineage, and the earliest of the other two is staged first:
its lineage is kept where the merge takes that of the later one. -/
theorem fx_replay_coalescing_keeps_older_lineage :
    let latest : FxReplay := ⟨10, 3, "sha256:a", 0, none, none, none⟩
    let oldest : FxReplay := ⟨10, 1, "sha256:b", 0, some "request-1", none, none⟩
    let middle : FxReplay := ⟨10, 2, "sha256:c", 0, some "request-2", none, none⟩
    (stageAll [latest, oldest, middle]).map FxReplay.correlationId = some (some "request-1") ∧
      (stageAll [latest, middle, oldest]).map FxReplay.correlationId = some (some "request-2") ∧
      (mergeReplaySiblingEvidence (validatedFxReplay latest) [oldest, middle]).correlationId =
        some "request-2" := by
  decide +kernel

end LotusCore.Reprocessing
