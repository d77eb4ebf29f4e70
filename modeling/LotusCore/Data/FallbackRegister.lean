import Mathlib.Data.List.Basic
import Mathlib.Order.Lattice

/-!
# Registers with a fallback value

A register keeps the greatest key written to it, and with it a value: that of the write with the
greatest key, or the value there was when that write brings none. The keys are joined, so their
order does not matter. The values are not: a value kept as a fallback is not replaced by the value
of a greater key that is still below the key of the register.

* `keep`: a list of writes.
* `le_keep_key`, `keep_key_mem`: the key is the greatest one written.
* **`keep_value_unique_iff`**: the value is the same in every order exactly when the values written
  agree or the writes with the greatest key all bring the same value.
-/

namespace LotusCore.FallbackRegister

open List

variable {κ γ : Type*} [LinearOrder κ]

/-- One write to a register. -/
def put (a b : κ × Option γ) : κ × Option γ :=
  if a.1 < b.1 then (b.1, b.2.or a.2) else (a.1, a.2.or b.2)

/-- The writes after a first one. -/
def keep (a : κ × Option γ) (l : List (κ × Option γ)) : κ × Option γ := l.foldl put a

/-- A write that no other one exceeds. -/
def Top (l : List (κ × Option γ)) (e : κ × Option γ) : Prop := e ∈ l ∧ ∀ e' ∈ l, e'.1 ≤ e.1

/-- The values written agree, or those of the greatest key do and none of them is missing. -/
def Agree (l : List (κ × Option γ)) : Prop :=
  (∀ e ∈ l, ∀ e' ∈ l, ∀ c ∈ e.2, ∀ c' ∈ e'.2, c = c') ∨ ∃ c, ∀ e, Top l e → e.2 = some c

section Put

variable {a b e : κ × Option γ} {l : List (κ × Option γ)} {c : γ} {k : κ}

@[simp] theorem put_key : (put a b).1 = max a.1 b.1 := by
  unfold put
  split_ifs with h
  · exact (max_eq_right h.le).symm
  · exact (max_eq_left (not_lt.mp h)).symm

theorem put_value_mem (h : (put a b).2 = some c) : a.2 = some c ∨ b.2 = some c := by
  unfold put at h
  split_ifs at h
  · rcases Option.or_eq_some_iff.mp h with h | ⟨-, h⟩
    · exact .inr h
    · exact .inl h
  · rcases Option.or_eq_some_iff.mp h with h | ⟨-, h⟩
    · exact .inl h
    · exact .inr h

theorem put_value_none : (put a b).2 = none ↔ a.2 = none ∧ b.2 = none := by
  unfold put
  split_ifs
  · exact Option.or_eq_none_iff.trans and_comm
  · exact Option.or_eq_none_iff

theorem le_keep_key (h : e ∈ a :: l) : e.1 ≤ (keep a l).1 := by
  induction l generalizing a e with
  | nil => rw [mem_singleton.mp h]; exact le_rfl
  | cons b l ih =>
    have hput : (put a b).1 ≤ (keep a (b :: l)).1 := ih mem_cons_self
    rw [put_key] at hput
    rcases mem_cons.mp h with rfl | h
    · exact (le_max_left _ _).trans hput
    · rcases mem_cons.mp h with rfl | h
      · exact (le_max_right _ _).trans hput
      · exact ih (mem_cons_of_mem _ h)

theorem keep_key_mem : ∃ e ∈ a :: l, e.1 = (keep a l).1 := by
  induction l generalizing a with
  | nil => exact ⟨a, mem_cons_self, rfl⟩
  | cons b l ih =>
    obtain ⟨e, he, hkey⟩ := ih (a := put a b)
    rcases mem_cons.mp he with rfl | he
    · rcases le_total b.1 a.1 with hle | hle
      · exact ⟨a, by simp, by rw [← max_eq_left hle, ← put_key]; exact hkey⟩
      · exact ⟨b, by simp, by rw [← max_eq_right hle, ← put_key]; exact hkey⟩
    · exact ⟨e, by simp [he], hkey⟩

theorem keep_value_mem (h : (keep a l).2 = some c) : ∃ e ∈ a :: l, e.2 = some c := by
  induction l generalizing a with
  | nil => exact ⟨a, mem_cons_self, h⟩
  | cons b l ih =>
    obtain ⟨e, he, hc⟩ := ih h
    rcases mem_cons.mp he with rfl | he
    · rcases put_value_mem hc with hc | hc
      · exact ⟨a, by simp, hc⟩
      · exact ⟨b, by simp, hc⟩
    · exact ⟨e, by simp [he], hc⟩

theorem keep_value_none : (keep a l).2 = none ↔ ∀ e ∈ a :: l, e.2 = none := by
  induction l generalizing a with
  | nil => simp [keep]
  | cons b l ih =>
    have h := ih (a := put a b)
    rw [forall_mem_cons, put_value_none, and_assoc] at h
    rw [forall_mem_cons, forall_mem_cons]
    exact h

theorem keep_of_le (h : ∀ e ∈ l, e.1 ≤ k) : keep (k, some c) l = (k, some c) := by
  induction l with
  | nil => rfl
  | cons b l ih =>
    obtain ⟨hb, hl⟩ := forall_mem_cons.mp h
    have hput : put (k, some c) b = (k, some c) := if_neg (not_lt.mpr hb)
    rw [keep, foldl_cons, hput]
    exact ih hl

theorem keep_value_of_top (h : ∀ e, Top (a :: l) e → e.2 = some c) : (keep a l).2 = some c := by
  induction l generalizing a with
  | nil => exact h a ⟨mem_cons_self, by simp⟩
  | cons b l ih =>
    refine ih ?_
    rintro e ⟨he, hmax⟩
    have hle : ∀ e' ∈ a :: b :: l, e'.1 ≤ e.1 := by
      intro e' he'
      have hput : max a.1 b.1 ≤ e.1 := by
        rw [← put_key]
        exact hmax _ mem_cons_self
      rcases mem_cons.mp he' with rfl | he'
      · exact (le_max_left _ _).trans hput
      · rcases mem_cons.mp he' with rfl | he'
        · exact (le_max_right _ _).trans hput
        · exact hmax e' (mem_cons_of_mem _ he')
    rcases mem_cons.mp he with rfl | he
    · unfold put at hle ⊢
      split_ifs at hle ⊢ with hlt
      · have hb : b.2 = some c := h b ⟨by simp, hle⟩
        rw [hb]
        rfl
      · have ha : a.2 = some c := h a ⟨by simp, hle⟩
        rw [ha]
        rfl
    · exact h e ⟨by simp [he], hle⟩

end Put

/-! ## Every order -/

def keepAll : List (κ × Option γ) → Option (κ × Option γ)
  | [] => none
  | a :: l => some (keep a l)

theorem keepAll_value_eq {l l' : List (κ × Option γ)} {x y : κ × Option γ} (h : Agree l)
    (hmem : ∀ e, e ∈ l' ↔ e ∈ l) (hx : keepAll l = some x) (hy : keepAll l' = some y) :
    y.2 = x.2 := by
  obtain ⟨a, m, rfl⟩ : ∃ a m, l = a :: m := by
    cases l with
    | nil => cases hx
    | cons a m => exact ⟨a, m, rfl⟩
  obtain ⟨b, n, rfl⟩ : ∃ b n, l' = b :: n := by
    cases l' with
    | nil => cases hy
    | cons b n => exact ⟨b, n, rfl⟩
  cases hx
  cases hy
  rcases h with hall | ⟨c, htop⟩
  · cases hc : (keep a m).2 with
    | none =>
      rw [keep_value_none] at hc ⊢
      exact fun e he => hc e ((hmem e).mp he)
    | some c =>
      obtain ⟨e, he, hec⟩ := keep_value_mem hc
      cases hc' : (keep b n).2 with
      | none =>
        rw [keep_value_none] at hc'
        rw [hc' e ((hmem e).mpr he)] at hec
        cases hec
      | some c' =>
        obtain ⟨e', he', hec'⟩ := keep_value_mem hc'
        rw [hall e' ((hmem e').mp he') e he c' hec' c hec]
  · have htop' : ∀ e, Top (b :: n) e → e.2 = some c := by
      rintro e ⟨he, hmax⟩
      exact htop e ⟨(hmem e).mp he, fun e' he' => hmax e' ((hmem e').mpr he')⟩
    rw [keep_value_of_top htop, keep_value_of_top htop']

theorem exists_perm_cons {α : Type*} {a : α} {l : List α} (h : a ∈ l) :
    ∃ m, (a :: m).Perm l := by
  obtain ⟨s, t, rfl⟩ := append_of_mem h
  exact ⟨s ++ t, perm_middle.symm⟩

theorem exists_perm_of_top_none {l : List (κ × Option γ)} {t e : κ × Option γ} {c : γ}
    (ht : Top l t) (hnone : t.2 = none) (he : e ∈ l) (hc : e.2 = some c) :
    ∃ l' x, l'.Perm l ∧ keepAll l' = some x ∧ x.2 = some c := by
  obtain ⟨m, hm⟩ := exists_perm_cons ht.1
  have hem : e ∈ m := by
    rcases mem_cons.mp (hm.mem_iff.mpr he) with rfl | hem
    · rw [hnone] at hc
      cases hc
    · exact hem
  obtain ⟨n, hn⟩ := exists_perm_cons hem
  have hperm : (t :: e :: n).Perm l := (hn.cons t).trans hm
  have hle : ∀ x ∈ t :: e :: n, x.1 ≤ t.1 := fun x hx => ht.2 x (hperm.mem_iff.mp hx)
  have hput : put t e = (t.1, some c) := by
    unfold put
    rw [if_neg (not_lt.mpr (hle e (by simp))), hnone, hc]
    rfl
  refine ⟨t :: e :: n, keep t (e :: n), hperm, rfl, ?_⟩
  rw [keep, foldl_cons, hput]
  exact congrArg Prod.snd (keep_of_le fun x hx => hle x (by simp [hx]))

theorem exists_perm_of_top_some {l : List (κ × Option γ)} {t : κ × Option γ} {c : γ}
    (ht : Top l t) (hc : t.2 = some c) :
    ∃ l' x, l'.Perm l ∧ keepAll l' = some x ∧ x.2 = some c := by
  obtain ⟨m, hm⟩ := exists_perm_cons ht.1
  have ht' : t = (t.1, some c) := Prod.ext rfl hc
  refine ⟨t :: m, keep t m, hm, rfl, ?_⟩
  rw [ht']
  exact congrArg Prod.snd (keep_of_le fun x hx => ht.2 x (hm.mem_iff.mp (by simp [hx])))

/-- **Order of the writes.** -/
theorem keep_value_unique_iff {l : List (κ × Option γ)} :
    (∃ v, ∀ l' x, l'.Perm l → keepAll l' = some x → x.2 = v) ↔ Agree l := by
  constructor
  · rintro ⟨v, hv⟩
    by_cases hall : ∀ e ∈ l, ∀ e' ∈ l, ∀ c ∈ e.2, ∀ c' ∈ e'.2, c = c'
    · exact .inl hall
    push Not at hall
    obtain ⟨e, he, e', he', c, hc, c', hc', hne⟩ := hall
    -- two values are written, so a top write without one would let either of them decide
    have hsome : ∀ t, Top l t → t.2 = v := by
      intro t ht
      cases hval : t.2 with
      | none =>
        obtain ⟨l₁, x₁, hp₁, hx₁, hc₁⟩ := exists_perm_of_top_none ht hval he hc
        obtain ⟨l₂, x₂, hp₂, hx₂, hc₂⟩ := exists_perm_of_top_none ht hval he' hc'
        rw [hv l₁ x₁ hp₁ hx₁] at hc₁
        rw [hv l₂ x₂ hp₂ hx₂, hc₁] at hc₂
        exact absurd (Option.some.inj hc₂) hne
      | some c₀ =>
        obtain ⟨l₁, x₁, hp₁, hx₁, hc₁⟩ := exists_perm_of_top_some ht hval
        rw [← hc₁, hv l₁ x₁ hp₁ hx₁]
    cases v with
    | some c₀ => exact .inr ⟨c₀, hsome⟩
    | none =>
      obtain ⟨a, m, rfl⟩ : ∃ a m, l = a :: m := by
        cases l with
        | nil => cases he
        | cons a m => exact ⟨a, m, rfl⟩
      have hnone := keep_value_none.mp (hv _ _ (.refl _) rfl) e he
      rw [hc] at hnone
      cases hnone
  · intro h
    cases l with
    | nil =>
      refine ⟨none, fun l' x hperm hx => ?_⟩
      rw [hperm.eq_nil] at hx
      cases hx
    | cons a m =>
      exact ⟨(keep a m).2, fun l' x hperm hx =>
        keepAll_value_eq h (fun e => hperm.mem_iff) rfl hx⟩

end LotusCore.FallbackRegister
