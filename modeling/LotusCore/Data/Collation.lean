import Mathlib.Data.Prod.Lex
import Mathlib.Data.String.Basic

/-!
# Collations

The order in which a database sorts texts is its own: any total order may be met. `orderBy` is the
order of a query that sorts by a day first and by texts after it.
-/

namespace LotusCore

/-- The order in which the database sorts texts. -/
structure Collation where
  le : String → String → Bool
  total : ∀ a b, le a b ∨ le b a
  trans : ∀ a b c, le a b → le b c → le a c
  antisymm : ∀ a b, le a b → le b a → a = b

namespace Collation

variable (collation : Collation)

def leTexts : List String → List String → Bool
  | a :: as, b :: bs => if a = b then leTexts as bs else collation.le a b
  | [], _ => true
  | _ :: _, [] => false

/-- `ORDER BY day, texts…`. -/
def orderBy {α : Type*} (day : α → ℤ) (texts : α → List String) (a b : α) : Prop :=
  day a < day b ∨ (day a = day b ∧ collation.leTexts (texts a) (texts b))

instance {α : Type*} (day : α → ℤ) (texts : α → List String) :
    DecidableRel (collation.orderBy day texts) := fun a b => by
  unfold orderBy; infer_instance

theorem leTexts_total (as bs : List String) :
    collation.leTexts as bs ∨ collation.leTexts bs as := by
  induction as generalizing bs with
  | nil => exact .inl (by simp [leTexts])
  | cons a as ih =>
    cases bs with
    | nil => exact .inr (by simp [leTexts])
    | cons b bs =>
      by_cases hab : a = b
      · simpa [leTexts, hab] using ih bs
      · simpa [leTexts, hab, Ne.symm hab] using collation.total a b

theorem leTexts_trans {as bs cs : List String} (hab : collation.leTexts as bs)
    (hbc : collation.leTexts bs cs) : collation.leTexts as cs := by
  induction as generalizing bs cs with
  | nil => simp [leTexts]
  | cons a as ih =>
    match bs, cs with
    | [], _ => simp [leTexts] at hab
    | _ :: _, [] => simp [leTexts] at hbc
    | b :: bs, c :: cs =>
      rw [leTexts] at hab hbc ⊢
      by_cases heq : a = b
      · by_cases heq' : b = c
        · rw [if_pos heq] at hab
          rw [if_pos heq'] at hbc
          rw [if_pos (heq.trans heq')]
          exact ih hab hbc
        · rw [if_neg heq'] at hbc
          rw [if_neg (heq ▸ heq'), heq]
          exact hbc
      · rw [if_neg heq] at hab
        by_cases heq' : b = c
        · rw [if_neg (heq' ▸ heq), ← heq']
          exact hab
        · rw [if_neg heq'] at hbc
          have hne : a ≠ c := by
            rintro rfl
            exact heq (collation.antisymm a b hab hbc)
          rw [if_neg hne]
          exact collation.trans a b c hab hbc

instance {α : Type*} (day : α → ℤ) (texts : α → List String) :
    Std.Total (collation.orderBy day texts) where
  total a b := by
    unfold orderBy
    rcases lt_trichotomy (day a) (day b) with h | h | h
    · exact .inl (.inl h)
    · cases collation.leTexts_total (texts a) (texts b) with
      | inl hle => exact .inl (.inr ⟨h, hle⟩)
      | inr hle => exact .inr (.inr ⟨h.symm, hle⟩)
    · exact .inr (.inl h)

instance {α : Type*} (day : α → ℤ) (texts : α → List String) :
    IsTrans α (collation.orderBy day texts) where
  trans a b c := by
    rintro (hab | ⟨hab, hle⟩) (hbc | ⟨hbc, hle'⟩)
    · exact .inl (hab.trans hbc)
    · exact .inl (hab.trans_eq hbc)
    · exact .inl (hab.trans_lt hbc)
    · exact .inr ⟨hab.trans hbc, collation.leTexts_trans hle hle'⟩

end Collation

def codePointOrder : Collation where
  le a b := decide (a ≤ b)
  total a b := by simpa using le_total a b
  trans a b c := by simpa using le_trans
  antisymm a b hab hba := le_antisymm (of_decide_eq_true hab) (of_decide_eq_true hba)

end LotusCore
