import LotusCore.Data.Versions
import LotusCore.Data.Windows
import Mathlib.Data.Prod.Lex
import Mathlib.Data.String.Basic

/-!
# Versioned records of an authority

Assignments of policies and the facts an amortized cost is calculated from are records of one
pattern. A record belongs to a scope, has a source and a version, and claims a window of dates while
it is active. The families differ in their fields and in the errors they raise, so the functions
here take both as arguments.

* `RecordView`: what the pattern reads of a record.
* `activeEffective`, `resolve`: the records that claim a date after corrections have been ranked,
  and the only one of them.
* `validate`: no two latest active records of a scope claim one date.
* **`validate_spec`**, `unambiguous_iff_resolve`: comparing neighbouring windows is exact.
-/

namespace LotusCore.Authority

open Exec Versions Windows List

variable {α β σ ε : Type}

/-- How the records of a family are read. -/
structure RecordView (α σ : Type) where
  scope : α → σ
  sourceSystem : α → String
  sourceRecordId : α → String
  version : α → ℤ
  validFrom : α → ℤ
  validTo : α → Option ℤ
  active : α → Bool
  window : ∀ a, ∀ e ∈ validTo a, validFrom a ≤ e

/-- The errors a family raises when it resolves a date. -/
structure Refusals (ε : Type) where
  conflicting : ε
  missing : ε
  overlapping : List String → ε

namespace RecordView

variable (view : RecordView α σ)

def sourceRecordKey (a : α) : σ × String × String :=
  (view.scope a, view.sourceSystem a, view.sourceRecordId a)

def isEffectiveOn (a : α) (date : ℤ) : Bool := Holds view.validFrom view.validTo a date

/-- The record is active and effective on the date. -/
def claims (date : ℤ) (a : α) : Bool := view.active a && view.isEffectiveOn a date

def sourceText (a : α) : String := view.sourceSystem a ++ ":" ++ view.sourceRecordId a

def sources (l : List α) : List String := (l.map view.sourceText).insertionSort (· ≤ ·)

/-- The only record of a list. -/
def pickOne (refusals : Refusals ε) : List α → Except ε α
  | [] => .error refusals.missing
  | [a] => .ok a
  | l => .error (refusals.overlapping (view.sources l))

/-- `date.max` as a day number. -/
def dateMax : ℤ := 3652059

def OverlapsNext (previous current : α) : Prop :=
  match view.validTo previous with
  | none => True
  | some lastDay => view.validFrom current ≤ lastDay

instance (previous current : α) : Decidable (view.OverlapsNext previous current) := by
  unfold OverlapsNext
  split <;> infer_instance

/-- The inner loop of the validation. -/
def checkNeighbours (overlap : ε) : List α → Except ε Unit
  | previous :: current :: rest =>
    if view.OverlapsNext previous current then .error overlap
    else checkNeighbours overlap (current :: rest)
  | _ => .ok ()

/-- The order of the windows of a scope; `texts` are the source system and the record id as they are
stored. -/
def orderKey (texts : α → String × String) (a : α) : ℤ ×ₗ ℤ ×ₗ String ×ₗ String :=
  toLex (view.validFrom a, toLex ((view.validTo a).getD dateMax, toLex (texts a)))

/-- The records of a scope in the order of their windows. -/
def ordered (texts : α → String × String) (l : List α) : List α :=
  l.insertionSort fun a b => view.orderKey texts a ≤ view.orderKey texts b

variable [DecidableEq α] [DecidableEq σ]

def activeEffective (conflicting : ε) (records : List α) (scope : σ) (date : ℤ) :
    Except ε (List α) := do
  let ofScope := records.filter fun a => view.scope a = scope
  let latest ← latestVersions view.sourceRecordKey view.version conflicting ofScope
  return latest.filter (view.claims date)

/-- The record that claims a date in a scope. -/
def resolve (refusals : Refusals ε) (records : List α) (scope : σ) (date : ℤ) : Except ε α := do
  let effective ← view.activeEffective refusals.conflicting records scope date
  view.pickOne refusals effective

def validate (conflicting : ε) (overlap : σ → ε) (texts : α → String × String) (records : List α) :
    Except ε Unit := do
  let latest ← latestVersions view.sourceRecordKey view.version conflicting records
  let active := latest.filter view.active
  (Grouping.keys view.scope active).forM fun scope =>
    view.checkNeighbours (overlap scope)
      (view.ordered texts (Grouping.rowsOf view.scope active scope))

end RecordView

/-! ## Neighbouring windows -/

section Validate

variable {view : RecordView α σ} {l l' : List α} {a b : α} {date : ℤ}

theorem not_overlapsNext_iff :
    ¬ view.OverlapsNext a b ↔ Precedes view.validFrom view.validTo a b := by
  unfold RecordView.OverlapsNext Precedes
  cases view.validTo a with
  | none => simp
  | some e => simp

variable (view) in
theorem checkNeighbours_spec (overlap : ε) (l : List α) :
    (view.checkNeighbours overlap l = .ok () ∧ l.IsChain (Precedes view.validFrom view.validTo)) ∨
      view.checkNeighbours overlap l = .error overlap ∧
        ¬ l.IsChain (Precedes view.validFrom view.validTo) := by
  induction l with
  | nil => exact .inl ⟨rfl, .nil⟩
  | cons a l ih =>
    cases l with
    | nil => exact .inl ⟨rfl, .singleton a⟩
    | cons b l =>
      rw [RecordView.checkNeighbours, isChain_cons_cons, ← not_overlapsNext_iff]
      by_cases h : view.OverlapsNext a b
      · exact .inr ⟨if_pos h, fun hchain => hchain.1 h⟩
      · rw [if_neg h]
        simpa [h] using ih

theorem ordered_sorted (texts : α → String × String) (l : List α) :
    (view.ordered texts l).Pairwise fun a b => view.validFrom a ≤ view.validFrom b := by
  have hsorted := pairwise_insertionSort
    (fun a b => view.orderKey texts a ≤ view.orderKey texts b) l
  refine hsorted.imp fun {a b} hab => ?_
  rcases (Prod.Lex.le_iff.mp hab) with hlt | ⟨heq, -⟩
  · exact hlt.le
  · exact heq.le

theorem isChain_ordered_iff (texts : α → String × String) (l : List α) :
    (view.ordered texts l).IsChain (Precedes view.validFrom view.validTo) ↔
      ∀ date, (l.filter fun a => view.isEffectiveOn a date).length ≤ 1 := by
  rw [isChain_precedes_iff view.window (ordered_sorted texts l)]
  refine forall_congr' fun date => ?_
  have hperm : ((view.ordered texts l).filter fun a => view.isEffectiveOn a date).Perm
      (l.filter fun a => view.isEffectiveOn a date) :=
    (perm_insertionSort _ l).filter _
  rw [← hperm.length_eq]
  rfl

theorem forM_spec {check : σ → Except ε Unit} {overlap : σ → ε} {P : σ → Prop}
    (hcheck : ∀ s, (check s = .ok () ∧ P s) ∨ check s = .error (overlap s) ∧ ¬ P s)
    (scopes : List σ) :
    (scopes.forM check = .ok () ∧ ∀ s ∈ scopes, P s) ∨
      ∃ s ∈ scopes, scopes.forM check = .error (overlap s) ∧ ¬ P s := by
  induction scopes with
  | nil => exact .inl ⟨rfl, by simp⟩
  | cons s scopes ih =>
    rw [List.forM]
    rcases hcheck s with ⟨hok, hs⟩ | ⟨herror, hs⟩
    · rw [hok]
      rcases ih with ⟨hrest, hall⟩ | ⟨s', hs', hrest, hnot⟩
      · exact .inl ⟨hrest, forall_mem_cons.mpr ⟨hs, hall⟩⟩
      · exact .inr ⟨s', mem_cons_of_mem _ hs', hrest, hnot⟩
    · exact .inr ⟨s, mem_cons_self, by rw [herror]; rfl, hs⟩

/-- No two latest records claim one date of one scope. -/
def Unambiguous (view : RecordView α σ) (records : List α) : Prop :=
  ∀ a b date, IsLatest view.sourceRecordKey view.version records a →
    IsLatest view.sourceRecordKey view.version records b → view.scope a = view.scope b →
      view.claims date a → view.claims date b → a = b

variable {records records' : List α}

theorem unambiguous_perm (h : records.Perm records') :
    Unambiguous view records ↔ Unambiguous view records' := by
  simp only [Unambiguous, isLatest_perm h]

theorem length_le_one_iff (h : l.Nodup) : l.length ≤ 1 ↔ ∀ a ∈ l, ∀ b ∈ l, a = b := by
  match l, h with
  | [], _ => simp
  | [a], _ => simp
  | a :: b :: rest, h =>
    have hne : a ≠ b := fun hab => (nodup_cons.mp h).1 (hab ▸ mem_cons_self)
    constructor
    · intro hlen
      simp at hlen
    · intro hall
      exact absurd (hall a (by simp) b (by simp)) hne

variable [DecidableEq α] [DecidableEq σ] {conflicting : ε} {overlap : σ → ε}
  {texts : α → String × String} {scope : σ}

variable (conflicting overlap texts) in
/-- **Neighbouring windows decide.** Records without conflicting versions are accepted exactly when
no two of them claim one date of one scope, and refused with the overlap of a scope otherwise. -/
theorem validate_spec (hnone : ¬ Conflicts view.sourceRecordKey view.version records) :
    (view.validate conflicting overlap texts records = .ok () ∧ Unambiguous view records) ∨
      ∃ scope, view.validate conflicting overlap texts records = .error (overlap scope) ∧
        ¬ Unambiguous view records := by
  rcases latestVersions_spec view.sourceRecordKey view.version conflicting records with
    ⟨hc, -⟩ | ⟨-, latest, hlatest, hnodup, hmem⟩
  · exact absurd hc hnone
  have hrun : view.validate conflicting overlap texts records =
      (Grouping.keys view.scope (latest.filter view.active)).forM fun scope =>
        view.checkNeighbours (overlap scope)
          (view.ordered texts (Grouping.rowsOf view.scope (latest.filter view.active) scope)) := by
    rw [RecordView.validate, hlatest]
    rfl
  have hgroup : ∀ scope,
      (∀ date, ((Grouping.rowsOf view.scope (latest.filter view.active) scope).filter
      fun a => view.isEffectiveOn a date).length ≤ 1) ↔ ∀ date a b, a ∈ latest → b ∈ latest →
        view.scope a = scope → view.scope b = scope → view.claims date a → view.claims date b →
          a = b := by
    intro scope
    refine forall_congr' fun date => ?_
    rw [Grouping.rowsOf, length_le_one_iff (((hnodup.filter _).filter _).filter _)]
    simp only [mem_filter, RecordView.claims, Bool.and_eq_true,
      decide_eq_true_eq]
    grind
  rw [hrun]
  rcases forM_spec (fun scope => (checkNeighbours_spec view (overlap scope)
      (view.ordered texts (Grouping.rowsOf view.scope (latest.filter view.active) scope))))
      (Grouping.keys view.scope (latest.filter view.active))
    with ⟨hok, hall⟩ | ⟨scope, -, herror, hnot⟩
  · refine .inl ⟨hok, fun a b date ha hb hscope hclaim hclaim' => ?_⟩
    have hactive : a ∈ latest.filter view.active :=
      mem_filter.mpr ⟨(hmem a).mpr ha, (Bool.and_eq_true_iff.mp hclaim).1⟩
    have hchain := hall (view.scope a) (Grouping.mem_keys.mpr ⟨a, hactive, rfl⟩)
    rw [isChain_ordered_iff, hgroup] at hchain
    exact hchain date a b ((hmem a).mpr ha) ((hmem b).mpr hb) rfl hscope.symm hclaim hclaim'
  · refine .inr ⟨scope, herror, fun hun => hnot ?_⟩
    rw [isChain_ordered_iff, hgroup]
    intro date a b ha hb hscope hscope'
    exact hun a b date ((hmem a).mp ha) ((hmem b).mp hb) (hscope.trans hscope'.symm)

/-- The answer of the validation, apart from the scope an overlap is reported for, does not depend
on the order of the records. -/
theorem validate_perm {κ : Type} {kind : ε → κ}
    (hkind : ∀ s s', kind (overlap s) = kind (overlap s')) (h : records.Perm records') :
    (view.validate conflicting overlap texts records').mapError kind =
      (view.validate conflicting overlap texts records).mapError kind := by
  by_cases hc : Conflicts view.sourceRecordKey view.version records
  · have hrefused : ∀ r, Conflicts view.sourceRecordKey view.version r →
        view.validate conflicting overlap texts r = .error conflicting := by
      intro r hr
      rcases latestVersions_spec view.sourceRecordKey view.version conflicting r with
        ⟨-, herror⟩ | ⟨hnone, -⟩
      · rw [RecordView.validate, herror]
        rfl
      · exact absurd hr hnone
    rw [hrefused records hc, hrefused records' ((conflicts_perm h).mp hc)]
  · have hc' := fun hr => hc ((conflicts_perm h).mpr hr)
    rcases validate_spec conflicting overlap texts hc with
      ⟨hok, hun⟩ | ⟨s, herror, hamb⟩ <;>
    rcases validate_spec conflicting overlap texts hc' with
      ⟨hok', hun'⟩ | ⟨s', herror', hamb'⟩
    · rw [hok, hok']
    · exact absurd ((unambiguous_perm h).mp hun) hamb'
    · exact absurd ((unambiguous_perm h).mpr hun') hamb
    · rw [herror, herror']
      exact congrArg Except.error (hkind s' s)

variable (conflicting) in
theorem activeEffective_spec (hnone : ¬ Conflicts view.sourceRecordKey view.version records)
    (scope : σ) (date : ℤ) :
    ∃ l, view.activeEffective conflicting records scope date = .ok l ∧ l.Nodup ∧ ∀ a, a ∈ l ↔
      IsLatest view.sourceRecordKey view.version records a ∧ view.scope a = scope ∧
        view.claims date a := by
  have hkey : ∀ a b, view.sourceRecordKey a = view.sourceRecordKey b →
      decide (view.scope a = scope) = decide (view.scope b = scope) := by
    intro a b h
    have hscope : view.scope a = view.scope b := congrArg Prod.fst h
    rw [hscope]
  rcases latestVersions_spec view.sourceRecordKey view.version conflicting
      (records.filter fun a => view.scope a = scope)
    with ⟨hc, -⟩ | ⟨-, latest, hlatest, hnodup, hmem⟩
  · exact absurd (hc.mono (filter_subset_self _)) hnone
  · refine ⟨latest.filter (view.claims date), ?_, hnodup.filter _, fun a => ?_⟩
    · rw [RecordView.activeEffective, hlatest]
      rfl
    · rw [mem_filter, hmem a, isLatest_filter hkey, decide_eq_true_iff, and_assoc]

/-- Resolving meets an overlap somewhere exactly when two records claim one date. -/
theorem unambiguous_iff_resolve (refusals : Refusals ε) (IsOverlap : ε → Prop)
    (hmissing : ¬ IsOverlap refusals.missing)
    (hoverlapping : ∀ s, IsOverlap (refusals.overlapping s))
    (hnone : ¬ Conflicts view.sourceRecordKey view.version records) :
    Unambiguous view records ↔
      ∀ scope date e, view.resolve refusals records scope date = .error e → ¬ IsOverlap e := by
  constructor
  · intro hun scope date e he hoverlap
    obtain ⟨l, hl, hnodup, hmem⟩ := activeEffective_spec refusals.conflicting hnone scope date
    rw [RecordView.resolve, hl] at he
    have hlen : l.length ≤ 1 := by
      refine (length_le_one_iff hnodup).mpr fun a ha b hb => ?_
      obtain ⟨ha, hscope, hclaim⟩ := (hmem a).mp ha
      obtain ⟨hb, hscope', hclaim'⟩ := (hmem b).mp hb
      exact hun a b date ha hb (hscope.trans hscope'.symm) hclaim hclaim'
    match l, hlen with
    | [], _ => exact hmissing (Except.error.inj he ▸ hoverlap)
    | [a], _ => cases he
  · intro hresolve a b date ha hb hscope hclaim hclaim'
    obtain ⟨l, hl, hnodup, hmem⟩ := activeEffective_spec refusals.conflicting hnone
      (view.scope b) date
    have hmema := (hmem a).mpr ⟨ha, hscope, hclaim⟩
    have hmemb := (hmem b).mpr ⟨hb, rfl, hclaim'⟩
    by_contra hne
    match l, hl, hmema, hmemb with
    | [c], _, hmema, hmemb =>
      exact hne ((mem_singleton.mp hmema).trans (mem_singleton.mp hmemb).symm)
    | c :: c' :: rest, hl, _, _ =>
      refine hresolve (view.scope b) date _ ?_ (hoverlapping (view.sources (c :: c' :: rest)))
      rw [RecordView.resolve, hl]
      rfl

end Validate

end LotusCore.Authority
