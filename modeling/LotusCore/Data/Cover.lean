import Mathlib.Data.List.Sort
import Mathlib.Algebra.Order.BigOperators.Group.List
import Mathlib.Algebra.Order.Group.Unbundled.Basic

/-!
# Covering prefixes

A demand is met by taking the elements of a list in turn until their weights cover it.

* `reach`: the elements that are taken.
* **`mem_reach_iff`**: in a sorted list they are the elements whose predecessors do not cover the
  demand.
* `eq_append_of_sublist_append`: a sublist that keeps all of a prefix starts with it.
-/

namespace LotusCore.Cover

open List

variable {α M κ : Type*} [AddCommGroup M] [LinearOrder M] [LinearOrder κ]

/-- The elements taken in turn until their weights cover the demand. -/
def reach (w : α → M) : List α → M → List α
  | [], _ => []
  | x :: rest, q => if q ≤ 0 then [] else x :: reach w rest (q - w x)

variable {w : α → M} {l : List α} {q : M}

theorem reach_of_nonpos (h : q ≤ 0) : reach w l q = [] := by
  cases l with
  | nil => rfl
  | cons x rest => rw [reach, if_pos h]

theorem reach_isPrefix : reach w l q <+: l := by
  induction l generalizing q with
  | nil => exact nil_prefix
  | cons x rest ih =>
    rw [reach]
    split_ifs
    · exact nil_prefix
    · exact cons_prefix_cons.mpr ⟨rfl, ih⟩

theorem reach_map {β : Type*} {f : β → α} {l : List β} :
    reach w (l.map f) q = (reach (fun b => w (f b)) l q).map f := by
  induction l generalizing q with
  | nil => rfl
  | cons x rest ih =>
    rw [map_cons, reach, reach]
    split_ifs
    · rfl
    · rw [map_cons, ih]

variable [IsOrderedAddMonoid M]

theorem le_sum_reach (h : q ≤ (l.map w).sum) : q ≤ ((reach w l q).map w).sum := by
  induction l generalizing q with
  | nil => exact h
  | cons x rest ih =>
    rw [reach]
    split_ifs with hq
    · simpa using hq
    · rw [map_cons, sum_cons] at h ⊢
      exact sub_le_iff_le_add'.mp (ih (sub_le_iff_le_add'.mpr h))

/-- In a list sorted by a key, the elements taken are those whose predecessors do not cover the
demand. -/
theorem mem_reach_iff {key : α → κ} {x : α} (hl : l.Pairwise fun a b => key a < key b)
    (hw : ∀ y ∈ l, 0 ≤ w y) :
    x ∈ reach w l q ↔ x ∈ l ∧ ((l.filter fun y => key y < key x).map w).sum < q := by
  induction l generalizing q with
  | nil => simp [reach]
  | cons y rest ih =>
    have hrest := pairwise_cons.mp hl
    have hsum : 0 ≤ (((y :: rest).filter fun z => key z < key x).map w).sum := by
      refine sum_nonneg fun a ha => ?_
      obtain ⟨z, hz, rfl⟩ := mem_map.mp ha
      exact hw z (mem_of_mem_filter hz)
    rw [reach]
    split_ifs with hq
    · simpa using fun _ => hq.trans hsum
    rw [mem_cons, mem_cons, ih hrest.2 fun z hz => hw z (by simp [hz])]
    by_cases hx : x = y
    · subst hx
      -- nothing precedes the first element
      have hnone : (x :: rest).filter (fun z => key z < key x) = [] := by
        rw [filter_eq_nil_iff]
        intro z hz
        rcases mem_cons.mp hz with rfl | hz
        · simp
        · simpa using (hrest.1 z hz).le
      simpa [hnone] using hq
    · simp only [hx, false_or]
      refine and_congr_right fun hmem => ?_
      rw [filter_cons_of_pos (by simpa using hrest.1 x hmem), map_cons, sum_cons,
        lt_sub_iff_add_lt']

/-! ## Lists sorted by a key -/

theorem insertionSort_pairwise_lt {key : α → κ} (hkeys : (l.map key).Nodup) :
    (l.insertionSort fun a b => key a ≤ key b).Pairwise fun a b => key a < key b := by
  have hsorted := l.pairwise_insertionSort fun a b => key a ≤ key b
  have hne : ((l.insertionSort fun a b => key a ≤ key b).map key).Nodup :=
    ((l.perm_insertionSort _).map key).nodup_iff.mpr hkeys
  exact (hsorted.and (pairwise_map.mp hne)).imp fun h => lt_of_le_of_ne h.1 h.2

/-- Of elements with distinct keys, those with the smaller keys are sorted first. -/
theorem insertionSort_of_perm_append {key : α → κ} {xs ys : List α} (hperm : l.Perm (xs ++ ys))
    (hkeys : (l.map key).Nodup) (hlt : ∀ x ∈ xs, ∀ y ∈ ys, key x < key y) :
    (l.insertionSort fun a b => key a ≤ key b) =
      (xs.insertionSort fun a b => key a ≤ key b) ++
        ys.insertionSort fun a b => key a ≤ key b := by
  have hparts : ((xs ++ ys).map key).Nodup := (hperm.map key).nodup_iff.mp hkeys
  rw [map_append] at hparts
  have hsorted : ((xs.insertionSort fun a b => key a ≤ key b) ++
      ys.insertionSort fun a b => key a ≤ key b).Pairwise fun a b => key a < key b := by
    rw [pairwise_append]
    refine ⟨insertionSort_pairwise_lt (nodup_append.mp hparts).1,
      insertionSort_pairwise_lt (nodup_append.mp hparts).2.1, fun x hx y hy => ?_⟩
    exact hlt x ((mem_insertionSort _).mp hx) y ((mem_insertionSort _).mp hy)
  have hall := (l.perm_insertionSort fun a b => key a ≤ key b).trans (hperm.trans
    ((xs.perm_insertionSort fun a b => key a ≤ key b).append
      (ys.perm_insertionSort fun a b => key a ≤ key b)).symm)
  refine hall.eq_of_pairwise (fun a b _ _ h h' => absurd h' h.asymm)
    (insertionSort_pairwise_lt hkeys) hsorted

/-- Of two strictly sorted lists, the one with fewer elements is a sublist of the other. -/
theorem sublist_of_subset_of_sorted {key : α → κ} {l₁ l₂ : List α}
    (h₁ : l₁.Pairwise fun a b => key a < key b) (h₂ : l₂.Pairwise fun a b => key a < key b)
    (hsub : l₁ ⊆ l₂) : l₁.Sublist l₂ := by
  have hasymm : Std.Antisymm fun a b => key a < key b := ⟨fun _ _ h h' => absurd h' h.asymm⟩
  have hnodup : l₁.Nodup := h₁.imp fun h => ne_of_apply_ne key h.ne
  exact sublist_of_subperm_of_pairwise (subperm_of_subset hnodup hsub) h₁ h₂

theorem eq_append_of_sublist_append {xs ys zs : List α} (hnodup : (xs ++ ys).Nodup)
    (hsub : zs.Sublist (xs ++ ys)) (hmem : ∀ x ∈ xs, x ∈ zs) :
    ∃ rest, zs = xs ++ rest ∧ rest.Sublist ys := by
  obtain ⟨as, bs, rfl, has, hbs⟩ := sublist_append_iff.mp hsub
  have hdisj := (nodup_append.mp hnodup).2.2
  have hin : xs ⊆ as := by
    intro x hx
    rcases mem_append.mp (hmem x hx) with h | h
    · exact h
    · exact absurd rfl (hdisj x hx x (hbs.subset h))
  have heq : as = xs :=
    has.eq_of_length_le (subperm_of_subset (nodup_append.mp hnodup).1 hin).length_le
  exact ⟨bs, by rw [heq], hbs⟩

end LotusCore.Cover
