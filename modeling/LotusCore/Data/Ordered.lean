import LotusCore.Data.Table
import Mathlib.Data.List.MinMax
import Mathlib.Data.List.Sort

/-!
# Ordered tables

A table whose rows stand in the order of a key, one row for each key.

* `Increasing`: the rows stand in order; `Increasing.append_eq_filter` cuts them at a row.
* `latest`: the row with the greatest key, of rows in any order.
-/

namespace LotusCore.Ordered

open Table List

variable {α κ : Type*} [LinearOrder κ] (key : α → κ)

/-- The rows stand in the order of the key. -/
def Increasing (l : List α) : Prop := l.Pairwise fun a b => key a < key b

/-- The first of the rows with the greatest key. -/
def latest (l : List α) : Option α := l.argmax key

variable {key} {l : List α} {a b : α} {k : κ}

theorem latest_mem (h : latest key l = some a) : a ∈ l := argmax_mem h

theorem le_latest (h : latest key l = some a) (hb : b ∈ l) : key b ≤ key a :=
  le_of_mem_argmax hb h

theorem latest_eq_none : latest key l = none ↔ l = [] := argmax_eq_none

theorem Increasing.nodup (h : Increasing key l) : (l.map key).Nodup := by
  rw [List.Nodup, pairwise_map]
  exact h.imp fun hab => hab.ne

theorem Increasing.append_eq_filter {p q : List α} (h : Increasing key (p ++ [a] ++ q)) :
    p ++ [a] = (p ++ [a] ++ q).filter fun b => key b ≤ key a := by
  obtain ⟨hleft, -, hright⟩ := pairwise_append.mp h
  have hlast := (pairwise_append.mp hleft).2.2
  have hkeep : (p ++ [a]).filter (fun b => key b ≤ key a) = p ++ [a] := by
    rw [filter_eq_self]
    intro b hb
    rcases mem_append.mp hb with hb | hb
    · simpa using (hlast b hb a (by simp)).le
    · simp [mem_singleton.mp hb]
  have hdrop : q.filter (fun b => key b ≤ key a) = [] := by
    rw [filter_eq_nil_iff]
    intro b hb
    simpa using hright a (by simp) b hb
  rw [filter_append, hkeep, hdrop, append_nil]

end LotusCore.Ordered
