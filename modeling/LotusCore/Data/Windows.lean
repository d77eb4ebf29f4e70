import Mathlib.Data.List.Chain
import Mathlib.Order.Lattice

/-!
# Windows with an optional end

Records that hold from a first date on, up to a last date or without an end.

* `Holds`: the window of a record contains a date.
* `Precedes`: the window of a record ends before another begins.
* **`isChain_precedes_iff`**: among windows sorted by their first dates it is enough to look at
  neighbours. No date has two windows exactly when each window ends before the next begins.
-/

namespace LotusCore.Windows

variable {α τ : Type} [LinearOrder τ] (first : α → τ) (last : α → Option τ)

/-- The window contains the date. -/
def Holds (a : α) (d : τ) : Prop := first a ≤ d ∧ ∀ e ∈ last a, d ≤ e
  deriving Decidable

/-- The window of `a` ends before the window of `b` begins. -/
def Precedes (a b : α) : Prop := ∃ e ∈ last a, e < first b
  deriving Decidable

variable {first last} {l : List α} {a b : α} {d : τ}

theorem not_holds_of_lt (h : d < first a) : ¬ Holds first last a d := fun hd =>
  absurd hd.1 (not_le.mpr h)

theorem Precedes.not_holds (h : Precedes first last a b) (ha : Holds first last a d) :
    ¬ Holds first last b d := by
  obtain ⟨e, he, hlt⟩ := h
  exact not_holds_of_lt ((ha.2 e he).trans_lt hlt)

/-- Two windows in the order of their first dates that leave no gap share the first date of the
second. -/
theorem holds_first_of_not_precedes (hle : first a ≤ first b) (h : ¬ Precedes first last a b) :
    Holds first last a (first b) :=
  ⟨hle, fun e he => not_lt.mp fun hlt => h ⟨e, he, hlt⟩⟩

section Wellformed

variable (hwindow : ∀ a, ∀ e ∈ last a, first a ≤ e)

include hwindow

theorem holds_first (a : α) : Holds first last a (first a) := ⟨le_rfl, hwindow a⟩

theorem Precedes.trans {c : α} (hab : Precedes first last a b) (hbc : Precedes first last b c) :
    Precedes first last a c := by
  obtain ⟨e, he, hlt⟩ := hab
  obtain ⟨e', he', hlt'⟩ := hbc
  exact ⟨e, he, (hlt.trans_le (hwindow b e' he')).trans hlt'⟩

theorem pairwise_precedes (h : l.IsChain (Precedes first last)) :
    l.Pairwise (Precedes first last) := by
  have htrans : IsTrans α (Precedes first last) := ⟨fun _ _ _ => Precedes.trans hwindow⟩
  exact List.isChain_iff_pairwise.mp h

/-- **Neighbours are enough.** -/
theorem isChain_precedes_iff (hsorted : l.Pairwise fun a b => first a ≤ first b) :
    l.IsChain (Precedes first last) ↔
      ∀ d, (l.filter fun a => Holds first last a d).length ≤ 1 := by
  constructor
  · intro hchain d
    have hpair := (pairwise_precedes hwindow hchain).filter fun a => Holds first last a d
    have hholds : ∀ a ∈ l.filter (fun a => Holds first last a d), Holds first last a d :=
      fun a ha =>
      of_decide_eq_true (List.mem_filter.mp ha).2
    -- the first two windows that hold the date would precede each other
    match hl : l.filter (fun a => Holds first last a d) with
    | [] => simp
    | [_] => simp
    | a :: b :: rest =>
      rw [hl] at hpair hholds
      have hab := (List.pairwise_cons.mp hpair).1 b (by simp)
      exact absurd (hholds b (by simp)) (hab.not_holds (hholds a (by simp)))
  · intro hone
    induction l with
    | nil => exact .nil
    | cons a l ih =>
      obtain ⟨hhead, htail⟩ := List.pairwise_cons.mp hsorted
      have hrest : l.IsChain (Precedes first last) := by
        refine ih htail fun d => le_trans (List.Sublist.length_le ?_) (hone d)
        exact (List.sublist_cons_self a l).filter _
      cases l with
      | nil => exact .singleton a
      | cons b l =>
        refine List.isChain_cons_cons.mpr ⟨?_, hrest⟩
        by_contra hnot
        -- otherwise both windows hold the first date of the second
        have ha := holds_first_of_not_precedes (hhead b (by simp)) hnot
        have htwo := hone (first b)
        rw [List.filter_cons_of_pos (by simpa using ha),
          List.filter_cons_of_pos (by simpa using holds_first hwindow b)] at htwo
        simp at htwo

end Wellformed

end LotusCore.Windows
