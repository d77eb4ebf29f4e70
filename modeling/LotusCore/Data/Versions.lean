import LotusCore.Data.Grouping
import LotusCore.Data.Ordered
import LotusCore.Exec.Raising

/-!
# Versioned records

Records of several sources, each with a version, of which the latest one of every source counts. Two
different records with one version of one source are in conflict.

* `latestVersions`: the latest record of every source, or a refusal.
* `Conflicts`, `IsLatest`: what they are, without an order of the records.
* **`latestVersions_spec`**: the loop refuses conflicts, and otherwise returns each latest record
  once.
-/

namespace LotusCore.Versions

open Exec List

variable {α κ ε : Type} (key : α → κ) (version : α → ℤ)

/-- Two different records share one version of one source. -/
def Conflicts (records : List α) : Prop :=
  ∃ a ∈ records, ∃ b ∈ records, key a = key b ∧ version a = version b ∧ a ≠ b

/-- No record of the source has a higher version. -/
def IsLatest (records : List α) (a : α) : Prop :=
  a ∈ records ∧ ∀ b ∈ records, key b = key a → version b ≤ version a

variable {key version} {records records' seen l : List α} {a b previous current : α}

theorem eq_of_not_conflicts (h : ¬ Conflicts key version records) (ha : a ∈ records)
    (hb : b ∈ records) (hkey : key a = key b) (hversion : version a = version b) : a = b := by
  by_contra hne
  exact h ⟨a, ha, b, hb, hkey, hversion, hne⟩

theorem Conflicts.mono (hsub : records ⊆ records') (h : Conflicts key version records) :
    Conflicts key version records' := by
  obtain ⟨a, ha, b, hb, hrest⟩ := h
  exact ⟨a, hsub ha, b, hsub hb, hrest⟩

theorem conflicts_perm (h : records.Perm records') :
    Conflicts key version records ↔ Conflicts key version records' :=
  ⟨.mono h.subset, .mono h.symm.subset⟩

theorem isLatest_perm (h : records.Perm records') :
    IsLatest key version records a ↔ IsLatest key version records' a := by
  simp only [IsLatest, h.mem_iff]

theorem isLatest_filter {p : α → Bool} (hp : ∀ x y, key x = key y → p x = p y) :
    IsLatest key version (records.filter p) a ↔ IsLatest key version records a ∧ p a := by
  constructor
  · rintro ⟨ha, hlatest⟩
    obtain ⟨ha, hpa⟩ := mem_filter.mp ha
    exact ⟨⟨ha, fun b hb hba => hlatest b (mem_filter.mpr ⟨hb, (hp b a hba).trans hpa⟩) hba⟩,
      hpa⟩
  · rintro ⟨⟨ha, hlatest⟩, hpa⟩
    exact ⟨mem_filter.mpr ⟨ha, hpa⟩, fun b hb => hlatest b (mem_filter.mp hb).1⟩

/-! ## The loop -/

variable [DecidableEq κ]

theorem mem_filterMap_latest (h : ¬ Conflicts key version seen) :
    a ∈ (Grouping.groups key seen).filterMap (Ordered.latest version) ↔
      IsLatest key version seen a := by
  rw [mem_filterMap]
  constructor
  · rintro ⟨g, hg, hlatest⟩
    obtain ⟨first, -, rfl⟩ := Grouping.mem_groups.mp hg
    obtain ⟨ha, hkey⟩ := Grouping.mem_rowsOf.mp (Ordered.latest_mem hlatest)
    refine ⟨ha, fun b hb hba => ?_⟩
    have hle : version b ≤ version a :=
      Ordered.le_latest hlatest (Grouping.mem_rowsOf.mpr ⟨hb, hba.trans hkey⟩)
    exact hle
  · intro ha
    refine ⟨_, Grouping.mem_groups.mpr ⟨a, ha.1, rfl⟩, ?_⟩
    have hmem : a ∈ Grouping.rowsOf key seen (key a) := Grouping.mem_rowsOf.mpr ⟨ha.1, rfl⟩
    cases hlatest : Ordered.latest version (Grouping.rowsOf key seen (key a)) with
    | none =>
      rw [Ordered.latest_eq_none.mp hlatest] at hmem
      cases hmem
    | some b =>
      obtain ⟨hb, hkey⟩ := Grouping.mem_rowsOf.mp (Ordered.latest_mem hlatest)
      have hle : version a ≤ version b := Ordered.le_latest hlatest hmem
      rw [eq_of_not_conflicts h hb ha.1 hkey (le_antisymm (ha.2 b hb hkey) hle)]

theorem nodup_filterMap_latest :
    ((Grouping.groups key seen).filterMap (Ordered.latest version)).Nodup := by
  rw [Grouping.groups, filterMap_map]
  refine (Grouping.nodup_keys seen).filterMap fun j k b hj hk => ?_
  have hjb := (Grouping.mem_rowsOf.mp (Ordered.latest_mem (Option.mem_def.mp hj))).2
  have hkb := (Grouping.mem_rowsOf.mp (Ordered.latest_mem (Option.mem_def.mp hk))).2
  exact hjb.symm.trans hkb

variable [DecidableEq α]

variable (key version) in
/-- One more record, unless its version is there with another content. -/
def addVersion (conflict : ε) (seen : List α) (a : α) : Except ε (List α) :=
  match seen.find? fun b => key b = key a ∧ version b = version a with
  | some existing => if a ≠ existing then .error conflict else .ok seen
  | none => .ok (seen ++ [a])

variable (key version) in
/-- The latest version of every source, in the order the sources were first seen. -/
def latestVersions (conflict : ε) (records : List α) : Except ε (List α) := do
  let seen ← records.foldlM (addVersion key version conflict) []
  return (Grouping.groups key seen).filterMap (Ordered.latest version)

theorem foldlM_addVersion (conflict : ε) (records : List α) (hseen : ¬ Conflicts key version seen) :
    (∃ kept, records.foldlM (addVersion key version conflict) seen = .ok kept ∧
        ¬ Conflicts key version kept ∧ ∀ x, x ∈ kept ↔ x ∈ seen ∨ x ∈ records) ∨
      records.foldlM (addVersion key version conflict) seen = .error conflict ∧
        Conflicts key version (seen ++ records) := by
  induction records generalizing seen with
  | nil => exact .inl ⟨seen, rfl, hseen, by simp⟩
  | cons a rest ih =>
    rw [foldlM_cons]
    cases hfind : seen.find? fun b => key b = key a ∧ version b = version a with
    | some existing =>
      have hslot : key existing = key a ∧ version existing = version a := by
        simpa using List.find?_some hfind
      have hmem : existing ∈ seen := mem_of_find?_eq_some hfind
      by_cases hne : a ≠ existing
      · refine .inr ⟨?_, a, by simp, existing, by simp [hmem], hslot.1.symm, hslot.2.symm, hne⟩
        rw [addVersion, hfind]
        simp [hne, bind, Except.bind]
      · obtain rfl : a = existing := not_not.mp hne
        have hstep : addVersion key version conflict seen a = .ok seen := by
          rw [addVersion, hfind]
          exact if_neg hne
        rw [hstep]
        rcases ih hseen with ⟨kept, hkept, hnone, hiff⟩ | ⟨herror, hconf⟩
        · refine .inl ⟨kept, hkept, hnone, fun x => (hiff x).trans ?_⟩
          rw [mem_cons]
          refine ⟨fun h => h.imp_right .inr, ?_⟩
          rintro (hx | rfl | hx)
          · exact .inl hx
          · exact .inl hmem
          · exact .inr hx
        · refine .inr ⟨herror, hconf.mono ?_⟩
          intro x hx
          rcases mem_append.mp hx with hx | hx
          · exact mem_append_left _ hx
          · exact mem_append_right _ (mem_cons_of_mem _ hx)
    | none =>
      have hstep : addVersion key version conflict seen a = .ok (seen ++ [a]) := by
        rw [addVersion, hfind]
      have hnew : ∀ b ∈ seen, ¬ (key b = key a ∧ version b = version a) := by
        simpa using hfind
      have hseen' : ¬ Conflicts key version (seen ++ [a]) := by
        rintro ⟨x, hx, y, hy, hk, hv, hne⟩
        rcases mem_append.mp hx with hxs | hxa <;> rcases mem_append.mp hy with hys | hya
        · exact hseen ⟨x, hxs, y, hys, hk, hv, hne⟩
        · rw [mem_singleton.mp hya] at hk hv
          exact hnew x hxs ⟨hk, hv⟩
        · rw [mem_singleton.mp hxa] at hk hv
          exact hnew y hys ⟨hk.symm, hv.symm⟩
        · exact hne ((mem_singleton.mp hxa).trans (mem_singleton.mp hya).symm)
      rw [hstep]
      rcases ih hseen' with ⟨kept, hkept, hnone, hiff⟩ | ⟨herror, hconf⟩
      · refine .inl ⟨kept, hkept, hnone, fun x => (hiff x).trans ?_⟩
        simp [or_assoc]
      · exact .inr ⟨herror, by simpa using hconf⟩

variable (key version) in
/-- **What the loop returns.** -/
theorem latestVersions_spec (conflict : ε) (records : List α) :
    (Conflicts key version records ∧
      latestVersions key version conflict records = .error conflict) ∨
      ¬ Conflicts key version records ∧ ∃ l, latestVersions key version conflict records = .ok l ∧
        l.Nodup ∧ ∀ a, a ∈ l ↔ IsLatest key version records a := by
  have hstart : ¬ Conflicts key version ([] : List α) := by simp [Conflicts]
  rcases foldlM_addVersion conflict records hstart with
    ⟨kept, hkept, hnone, hiff⟩ | ⟨herror, hconf⟩
  · have hmem : ∀ x, x ∈ kept ↔ x ∈ records := by simpa using hiff
    have hnone' : ¬ Conflicts key version records := fun h =>
      hnone (h.mono fun x hx => (hmem x).mpr hx)
    refine .inr ⟨hnone', _, by rw [latestVersions, hkept]; rfl, nodup_filterMap_latest, fun a => ?_⟩
    rw [mem_filterMap_latest hnone]
    simp only [IsLatest, hmem]
  · exact .inl ⟨by simpa using hconf, by rw [latestVersions, herror]; rfl⟩

end LotusCore.Versions
