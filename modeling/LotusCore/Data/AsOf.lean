import Mathlib.Data.List.MinMax
import Mathlib.Data.List.Sort

/-!
# Dated rows read as of a date

Rows with a date, of which the last one on or before a date counts. Rows of one date are told apart
by a finer key.

* `lastOnOrBefore`: the last row of a list that is not after a date.
* `window`: the rows of a span of dates in their order, with the rows of the last date before it.
* `IsLatestOn`: a row is the one to read as of a date.
* **`lastOnOrBefore_window`**: for every date of the span the window gives the row that counts among
  all rows.
-/

namespace LotusCore.AsOf

open List

variable {α τ κ : Type} [LinearOrder τ] [LinearOrder κ] (date : α → τ) (key : α → κ)

def lastOnOrBefore (l : List α) (d : τ) : Option α :=
  l.foldl (fun selected a => if date a ≤ d then some a else selected) none

def seedDate (l : List α) (start : τ) : Option τ :=
  ((l.filter fun a => date a < start).map date).max?

/-- The rows from the start to the end and those of the last date before the start, in order. -/
def window (l : List α) (start stop : τ) : List α :=
  (l.filter fun a => date a ≤ stop ∧
    (start ≤ date a ∨ some (date a) = seedDate date l start)).insertionSort fun a b => key a ≤ key b

/-- The row to read as of a date. -/
def IsLatestOn (l : List α) (d : τ) (a : α) : Prop :=
  a ∈ l ∧ date a ≤ d ∧ ∀ b ∈ l, date b ≤ d → key b ≤ key a

variable {date key} {l : List α} {a b : α} {d start stop : τ}

theorem lastOnOrBefore_eq : lastOnOrBefore date l d = (l.filter fun a => date a ≤ d).getLast? := by
  have hloop : ∀ selected : Option α,
      l.foldl (fun selected a => if date a ≤ d then some a else selected) selected =
        ((l.filter fun a => date a ≤ d).getLast?).or selected := by
    induction l with
    | nil => exact fun selected => rfl
    | cons a l ih =>
      intro selected
      rw [foldl_cons, ih]
      by_cases ha : date a ≤ d
      · rw [if_pos ha, filter_cons_of_pos (by simpa using ha), List.getLast?_cons]
        cases (l.filter fun a => date a ≤ d).getLast? <;> rfl
      · rw [if_neg ha, filter_cons_of_neg (by simpa using ha)]
  rw [lastOnOrBefore, hloop, Option.or_none]

theorem lastOnOrBefore_map {β : Type} {f : β → α} {m : List β} :
    lastOnOrBefore date (m.map f) d = (lastOnOrBefore (fun b => date (f b)) m d).map f := by
  rw [lastOnOrBefore_eq, lastOnOrBefore_eq, filter_map, List.getLast?_map]
  rfl

theorem exists_seedDate (hb : b ∈ l) (hlt : date b < start) :
    ∃ c ∈ l, date c < start ∧ seedDate date l start = some (date c) ∧ date b ≤ date c := by
  have hmem : date b ∈ (l.filter fun a => date a < start).map date :=
    mem_map_of_mem (mem_filter.mpr ⟨hb, by simpa using hlt⟩)
  cases hmax : ((l.filter fun a => date a < start).map date).max? with
  | none =>
    rw [List.max?_eq_none_iff] at hmax
    rw [hmax] at hmem
    cases hmem
  | some s =>
    obtain ⟨hs, hle⟩ := List.max?_eq_some_iff.mp hmax
    obtain ⟨c, hc, rfl⟩ := mem_map.mp hs
    obtain ⟨hc, hclt⟩ := mem_filter.mp hc
    exact ⟨c, hc, by simpa using hclt, hmax, hle _ hmem⟩

theorem mem_window : a ∈ window date key l start stop ↔
    a ∈ l ∧ date a ≤ stop ∧ (start ≤ date a ∨ some (date a) = seedDate date l start) := by
  rw [window, mem_insertionSort, mem_filter, decide_eq_true_iff]

section Keyed

-- the key orders the rows by date first, and tells the rows apart
variable (hkey : ∀ a b, date a < date b → key a < key b)
  (hinj : ∀ a ∈ l, ∀ b ∈ l, key a = key b → a = b)

include hkey

/-- Every row as of a date of the span is in the window or follows one that is. -/
theorem exists_mem_window (hstart : start ≤ d) (hstop : d ≤ stop) (hb : b ∈ l) (hd : date b ≤ d) :
    ∃ c ∈ window date key l start stop, date c ≤ d ∧ key b ≤ key c := by
  by_cases hin : start ≤ date b
  · exact ⟨b, mem_window.mpr ⟨hb, hd.trans hstop, .inl hin⟩, hd, le_rfl⟩
  · obtain ⟨c, hc, hclt, hseed, hle⟩ := exists_seedDate hb (not_le.mp hin)
    have hcd : date c ≤ d := hclt.le.trans hstart
    rcases hle.lt_or_eq with hlt | heq
    · exact ⟨c, mem_window.mpr ⟨hc, hcd.trans hstop, .inr hseed.symm⟩, hcd, (hkey b c hlt).le⟩
    · exact ⟨b, mem_window.mpr ⟨hb, hd.trans hstop, .inr (heq ▸ hseed.symm)⟩, hd, le_rfl⟩

theorem isLatestOn_of_window (hstart : start ≤ d) (hstop : d ≤ stop)
    (h : lastOnOrBefore date (window date key l start stop) d = some a) :
    IsLatestOn date key l d a := by
  rw [lastOnOrBefore_eq] at h
  obtain ⟨init, hinit⟩ := List.getLast?_eq_some_iff.mp h
  have hmem : a ∈ (window date key l start stop).filter fun a => date a ≤ d := by simp [hinit]
  obtain ⟨haw, had⟩ := mem_filter.mp hmem
  refine ⟨(mem_window.mp haw).1, by simpa using had, fun b hb hbd => ?_⟩
  obtain ⟨c, hc, hcd, hbc⟩ := exists_mem_window hkey hstart hstop hb hbd
  have hsorted : ((window date key l start stop).filter fun a => date a ≤ d).Pairwise
      fun a b => key a ≤ key b :=
    (pairwise_insertionSort (fun a b => key a ≤ key b) _).filter _
  have hcf : c ∈ (window date key l start stop).filter fun a => date a ≤ d :=
    mem_filter.mpr ⟨hc, by simpa using hcd⟩
  rw [hinit] at hsorted hcf
  rcases mem_append.mp hcf with hci | hca
  · exact hbc.trans ((pairwise_append.mp hsorted).2.2 c hci a (by simp))
  · exact hbc.trans_eq (congrArg key (mem_singleton.mp hca))

theorem lastOnOrBefore_window_eq_none (hstart : start ≤ d) (hstop : d ≤ stop) :
    lastOnOrBefore date (window date key l start stop) d = none ↔ ∀ b ∈ l, d < date b := by
  rw [lastOnOrBefore_eq, List.getLast?_eq_none_iff, filter_eq_nil_iff]
  constructor
  · intro h b hb
    by_contra hbd
    obtain ⟨c, hc, hcd, -⟩ := exists_mem_window hkey hstart hstop hb (not_lt.mp hbd)
    exact h c hc (by simpa using hcd)
  · intro h b hb
    simpa using h b (mem_window.mp hb).1

include hinj

/-- **The window gives the row to read.** -/
theorem lastOnOrBefore_window (hstart : start ≤ d) (hstop : d ≤ stop) :
    lastOnOrBefore date (window date key l start stop) d = some a ↔ IsLatestOn date key l d a := by
  refine ⟨isLatestOn_of_window hkey hstart hstop, fun ha => ?_⟩
  cases hlast : lastOnOrBefore date (window date key l start stop) d with
  | none =>
    exact absurd ha.2.1 (not_le.mpr
      ((lastOnOrBefore_window_eq_none hkey hstart hstop).mp hlast a ha.1))
  | some b =>
    have hb := isLatestOn_of_window hkey hstart hstop hlast
    exact congrArg some (hinj b hb.1 a ha.1
      (le_antisymm (ha.2.2 b hb.1 hb.2.1) (hb.2.2 a ha.1 ha.2.1)))

theorem lastOnOrBefore_window_eq (hstart : start ≤ d) (hstop : d ≤ stop) :
    lastOnOrBefore date (window date key l start stop) d =
      lastOnOrBefore date (window date key l d d) d :=
  Option.ext fun _ => (lastOnOrBefore_window hkey hinj hstart hstop).trans
    (lastOnOrBefore_window hkey hinj le_rfl le_rfl).symm

end Keyed

end LotusCore.AsOf
