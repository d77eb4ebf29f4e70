import Mathlib.Logic.Relation
import Mathlib.Data.List.Basic

/-!
# Machines

A machine takes labelled steps from a set of initial states; a step may be disabled.

* `Machine.Reachable`, `Machine.Leads`: the states of its runs, and what follows a state.
* **`Machine.Reachable.invariant`**: what holds at the start and is kept by every step holds in
  every reachable state.
* `Machine.Leads.rel`: a preorder kept by every step relates a state to all that follow it.
* `Machine.run`: a run given by its labels, to be evaluated; `run_unless` is its invariant rule.
-/

namespace Exec

universe u v

/-- A labelled transition system whose steps are functions. -/
structure Machine (σ : Type u) (ι : Type v) where
  init : σ → Prop
  step : σ → ι → Option σ

namespace Machine

variable {σ : Type u} {ι : Type v} {M : Machine σ ι} {s t : σ}

variable (M) in
/-- The states of the runs of a machine. -/
inductive Reachable : σ → Prop
  | init {s : σ} (h : M.init s) : Reachable s
  | step {s t : σ} {a : ι} (hs : Reachable s) (h : M.step s a = some t) : Reachable t

variable (M) in
/-- One step takes `s` to `t`. -/
def Next (s t : σ) : Prop := ∃ a, M.step s a = some t

variable (M) in
/-- Some steps take `s` to `t`. -/
def Leads : σ → σ → Prop := Relation.ReflTransGen M.Next

theorem Reachable.invariant {P : σ → Prop} (hs : M.Reachable s) (hinit : ∀ s, M.init s → P s)
    (hstep : ∀ s a t, P s → M.step s a = some t → P t) : P s := by
  induction hs with
  | init h => exact hinit _ h
  | step _ h ih => exact hstep _ _ _ ih h

theorem Reachable.leads (hs : M.Reachable s) (h : M.Leads s t) : M.Reachable t := by
  induction h with
  | refl => exact hs
  | tail _ hnext ih =>
    obtain ⟨a, ha⟩ := hnext
    exact .step ih ha

theorem Leads.rel {R : σ → σ → Prop} (h : M.Leads s t) (hs : M.Reachable s) (hrefl : ∀ s, R s s)
    (htrans : ∀ s t u, R s t → R t u → R s u)
    (hstep : ∀ s a t, M.Reachable s → M.step s a = some t → R s t) : R s t := by
  induction h with
  | refl => exact hrefl s
  | tail hleads hnext ih =>
    obtain ⟨a, ha⟩ := hnext
    exact htrans _ _ _ ih (hstep _ _ _ (hs.leads hleads) ha)

variable (M) in
def run : σ → List ι → Option σ
  | s, [] => some s
  | s, a :: rest => (M.step s a).bind fun t => run t rest

theorem run_cons {u : σ} {a : ι} {l : List ι} (h : M.step s a = some t)
    (hrest : M.run t l = some u) : M.run s (a :: l) = some u := by
  rw [Machine.run, h, Option.bind_some, hrest]

theorem Reachable.run {l : List ι} (hs : M.Reachable s) (h : M.run s l = some t) :
    M.Reachable t := by
  induction l generalizing s with
  | nil => exact Option.some.inj h ▸ hs
  | cons a rest ih =>
    rw [Machine.run, Option.bind_eq_some_iff] at h
    obtain ⟨u, hu, hrest⟩ := h
    exact ih (.step hs hu) hrest

/-- What every step keeps unless it ends in `Q` still holds at the end of a run, or the run has
been through `Q`. -/
theorem run_unless {J Q : σ → Prop} {l : List ι} (hs : J s) (h : M.run s l = some t)
    (hstep : ∀ s a t, J s → M.step s a = some t → J t ∨ Q t) :
    J t ∨ ∃ l' u, l' <+: l ∧ M.run s l' = some u ∧ Q u := by
  induction l generalizing s with
  | nil => exact Or.inl (Option.some.inj h ▸ hs)
  | cons a rest ih =>
    rw [Machine.run, Option.bind_eq_some_iff] at h
    obtain ⟨v, hv, hrest⟩ := h
    rcases hstep s a v hs hv with hkept | hthrough
    · rcases ih hkept hrest with hend | ⟨l', u, hprefix, hrun, hu⟩
      · exact Or.inl hend
      · exact Or.inr ⟨a :: l', u, (List.prefix_cons_inj a).mpr hprefix, run_cons hv hrun, hu⟩
    · exact Or.inr ⟨[a], v, ⟨rest, rfl⟩, run_cons hv rfl, hthrough⟩

end Machine

end Exec
