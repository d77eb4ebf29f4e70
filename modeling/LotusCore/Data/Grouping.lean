import Mathlib.Algebra.BigOperators.Group.Finset.Piecewise

/-!
# Rows grouped by a key

A dictionary from a key to the rows that have it, filled row by row: its keys stand in the order of
their first rows, and the rows of a key in the order they came in.

* `keys`, `rowsOf`, `groups`: the dictionary.
* `nodup_flatMap_groups`: what is built group by group has no repetition when no group has one.
* `groups_of_nodup`: rows with different keys, each in a group of its own.
* `sum_keys`: a sum over rows, group by group.
-/

namespace LotusCore.Grouping

open List

variable {α κ : Type*} [DecidableEq κ] (key : α → κ)

/-- The keys, in the order of their first rows. -/
def keys : List α → List κ
  | [] => []
  | a :: l => key a :: (keys l).filter (· ≠ key a)

def rowsOf (l : List α) (k : κ) : List α := l.filter fun a => key a = k

def groups (l : List α) : List (List α) := (keys key l).map (rowsOf key l)

variable {key} {l : List α} {a : α} {k : κ}

theorem mem_keys : k ∈ keys key l ↔ ∃ a ∈ l, key a = k := by
  induction l with
  | nil => simp [keys]
  | cons b l ih =>
    by_cases hk : k = key b
    · simp [keys, hk]
    · simp [keys, ih, hk, Ne.symm hk]

theorem nodup_keys (l : List α) : (keys key l).Nodup := by
  induction l with
  | nil => exact nodup_nil
  | cons b l ih =>
    refine nodup_cons.mpr ⟨?_, ih.filter _⟩
    simp

theorem mem_rowsOf : a ∈ rowsOf key l k ↔ a ∈ l ∧ key a = k := by
  simp [rowsOf]

theorem mem_groups {g : List α} : g ∈ groups key l ↔ ∃ a ∈ l, g = rowsOf key l (key a) := by
  rw [groups, mem_map]
  constructor
  · rintro ⟨k, hk, rfl⟩
    obtain ⟨a, ha, rfl⟩ := mem_keys.mp hk
    exact ⟨a, ha, rfl⟩
  · rintro ⟨a, ha, rfl⟩
    exact ⟨key a, mem_keys.mpr ⟨a, ha, rfl⟩, rfl⟩

theorem nodup_flatMap_groups {β : Type*} {build : List α → List β} (keyOf : β → κ)
    (hkey : ∀ k, ∀ b ∈ build (rowsOf key l k), keyOf b = k)
    (hgroup : ∀ k, (build (rowsOf key l k)).Nodup) : ((groups key l).flatMap build).Nodup := by
  rw [groups, flatMap_map, nodup_flatMap]
  refine ⟨fun k _ => hgroup k, (nodup_keys l).imp fun {j k} hne => ?_⟩
  intro b hj hk
  exact hne ((hkey j b hj).symm.trans (hkey k b hk))

theorem keys_of_nodup (h : (l.map key).Nodup) : keys key l = l.map key := by
  induction l with
  | nil => rfl
  | cons b l ih =>
    obtain ⟨hb, hl⟩ := nodup_cons.mp h
    rw [keys, ih hl, map_cons, filter_eq_self.mpr]
    intro k hk
    have hne : k ≠ key b := fun heq => hb (heq ▸ hk)
    simpa using hne

theorem rowsOf_of_nodup (h : (l.map key).Nodup) (ha : a ∈ l) : rowsOf key l (key a) = [a] := by
  induction l with
  | nil => exact absurd ha not_mem_nil
  | cons b l ih =>
    obtain ⟨hb, hl⟩ := nodup_cons.mp h
    rcases mem_cons.mp ha with rfl | ha
    · have hnone : rowsOf key l (key a) = [] := by
        rw [rowsOf, filter_eq_nil_iff]
        intro c hc
        have hne : key c ≠ key a := fun heq => hb (heq ▸ mem_map_of_mem hc)
        simpa using hne
      rw [rowsOf, filter_cons_of_pos (by simp)]
      exact congrArg (a :: ·) hnone
    · have hne : key b ≠ key a := fun heq => hb (heq ▸ mem_map_of_mem ha)
      rw [rowsOf, filter_cons_of_neg (by simpa using hne)]
      exact ih hl ha

theorem groups_of_nodup (h : (l.map key).Nodup) : groups key l = l.map fun a => [a] := by
  rw [groups, keys_of_nodup h, map_map]
  exact map_congr_left fun a ha => rowsOf_of_nodup h ha

theorem sum_rowsOf {M : Type*} [AddCommMonoid M] (f : α → M) (s : Finset κ) :
    ∑ k ∈ s, ((rowsOf key l k).map f).sum = ((l.filter fun a => key a ∈ s).map f).sum := by
  induction l with
  | nil => simp [rowsOf]
  | cons b l ih =>
    have hcons : ∀ k, ((rowsOf key (b :: l) k).map f).sum =
        (if key b = k then f b else 0) + ((rowsOf key l k).map f).sum := fun k => by
      by_cases hk : key b = k
      · simp [rowsOf, hk]
      · simp [rowsOf, hk]
    simp only [hcons, Finset.sum_add_distrib, Finset.sum_ite_eq, ih]
    by_cases hb : key b ∈ s
    · simp [hb]
    · simp [hb]

/-- A sum over the rows whose keys meet a condition, group by group. -/
theorem sum_keys {M : Type*} [AddCommMonoid M] (f : α → M) (p : κ → Bool) :
    (((keys key l).filter p).map fun k => ((rowsOf key l k).map f).sum).sum =
      ((l.filter fun a => p (key a)).map f).sum := by
  have hnodup : ((keys key l).filter p).Nodup := (nodup_keys l).filter _
  rw [← sum_toFinset _ hnodup, sum_rowsOf]
  congr 2
  refine filter_congr fun a ha => ?_
  have hmem : key a ∈ keys key l := mem_keys.mpr ⟨a, ha, rfl⟩
  simp [hmem]

end LotusCore.Grouping
