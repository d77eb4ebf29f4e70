import Mathlib.Algebra.BigOperators.Group.Finset.Basic

/-!
# Tables

A table is a list of rows. What a query statement does to it is a function on the list.

* `updateWhere`: `UPDATE … SET … WHERE …`.
* `mem_modify`, `exists_mem_modify_of_mem`: the entries after one of them changes.
* `row?`: the row of a key.
* `updateWhere_map`, `updateWhere_filter_map`: an update of other columns leaves a column alone.
* `row?_map`: what a change does to the row of a key.
* `sum_by_key`: a sum over rows, key by key.
* `repeats`: the rows whose key came before.
-/

namespace LotusCore.Table

open List

variable {α β κ : Type*}

/-- The rows that meet the condition are changed. -/
def updateWhere (p : α → Bool) (f : α → α) (rows : List α) : List α :=
  rows.map fun r => if p r then f r else r

section Update

variable {p : α → Bool} {f : α → α} {rows : List α}

theorem mem_updateWhere {r : α} :
    r ∈ updateWhere p f rows ↔ ∃ q ∈ rows, (if p q then f q else q) = r := mem_map

theorem mem_updateWhere_of_not {r : α} (hr : r ∈ rows) (h : p r = false) :
    r ∈ updateWhere p f rows := mem_updateWhere.mpr ⟨r, hr, by simp [h]⟩

theorem updateWhere_eq_self (h : ∀ r ∈ rows, p r = false) : updateWhere p f rows = rows := by
  unfold updateWhere
  conv_rhs => rw [← map_id rows]
  refine map_congr_left fun r hr => ?_
  simp [h r hr]

theorem updateWhere_map {g : α → β} (h : ∀ r ∈ rows, p r → g (f r) = g r) :
    (updateWhere p f rows).map g = rows.map g := by
  unfold updateWhere
  rw [map_map]
  refine map_congr_left fun r hr => ?_
  by_cases hp : p r
  · simp [hp, h r hr hp]
  · simp [hp]

theorem updateWhere_filter_map {q : α → Bool} {g : α → β} (hq : ∀ r, q (f r) = q r)
    (hg : ∀ r, g (f r) = g r) :
    ((updateWhere p f rows).filter q).map g = (rows.filter q).map g := by
  induction rows with
  | nil => rfl
  | cons r rest ih =>
    have hrow : q (if p r then f r else r) = q r ∧ g (if p r then f r else r) = g r := by
      by_cases hp : p r
      · rw [if_pos hp]
        exact ⟨hq r, hg r⟩
      · rw [if_neg hp]
        exact ⟨rfl, rfl⟩
    unfold updateWhere at ih ⊢
    rw [map_cons, filter_cons, filter_cons, hrow.1]
    by_cases hqr : q r
    · rw [if_pos hqr, if_pos hqr, map_cons, map_cons, hrow.2, ih]
    · rw [if_neg hqr, if_neg hqr, ih]

end Update

section Modify

variable {f : α → α} {l : List α} {i : ℕ} {x : α}

theorem mem_modify (h : x ∈ l.modify i f) : x ∈ l ∨ ∃ y, l[i]? = some y ∧ x = f y := by
  obtain ⟨j, hj⟩ := mem_iff_getElem?.mp h
  rw [List.getElem?_modify] at hj
  obtain ⟨y, hy, rfl⟩ := Option.map_eq_some_iff.mp hj
  by_cases hij : i = j
  · subst hij
    exact .inr ⟨y, hy, if_pos rfl⟩
  · rw [if_neg hij]
    exact .inl (mem_of_getElem? hy)

theorem exists_mem_modify_of_mem {g : α → β} (hf : ∀ y, g (f y) = g y) (h : x ∈ l) :
    ∃ y ∈ l.modify i f, g y = g x := by
  obtain ⟨j, hj⟩ := mem_iff_getElem?.mp h
  have hafter : (l.modify i f)[j]? = some (if i = j then f x else x) := by
    rw [List.getElem?_modify, hj]
    rfl
  refine ⟨_, mem_of_getElem? hafter, ?_⟩
  by_cases hij : i = j
  · rw [if_pos hij, hf]
  · rw [if_neg hij]

end Modify

section Paired

variable {R : α → β → Prop}

theorem exists_mem_of_forall₂ {l₁ : List α} {l₂ : List β} (h : List.Forall₂ R l₁ l₂) {a : α}
    (ha : a ∈ l₁) : ∃ b ∈ l₂, R a b := by
  induction h with
  | nil => exact absurd ha not_mem_nil
  | cons hab _ ih =>
    rcases mem_cons.mp ha with rfl | hrest
    · exact ⟨_, mem_cons_self, hab⟩
    · obtain ⟨b, hb, hr⟩ := ih hrest
      exact ⟨b, mem_cons_of_mem _ hb, hr⟩

/-- A lookup that finds a related row for every row pairs the rows with what it finds. -/
theorem forall₂_filterMap {f : α → Option β} {l : List α}
    (h : ∀ a ∈ l, ∃ b, f a = some b ∧ R a b) : List.Forall₂ R l (l.filterMap f) := by
  induction l with
  | nil => exact .nil
  | cons a l ih =>
    obtain ⟨b, hb, hr⟩ := h a mem_cons_self
    rw [filterMap_cons, hb]
    exact .cons hr (ih fun c hc => h c (mem_cons_of_mem _ hc))

end Paired

section Chunks

theorem mem_of_mem_toChunks_go {n : ℕ} {l : List α} {chunk : Array α} {done : Array (List α)}
    {c : List α} (hc : c ∈ List.toChunks.go n l chunk done) {a : α} (ha : a ∈ c) :
    a ∈ l ∨ a ∈ chunk ∨ ∃ d ∈ done, a ∈ d := by
  induction l generalizing chunk done with
  | nil =>
    simp only [List.toChunks.go, Array.mem_toList_iff, Array.mem_push] at hc
    rcases hc with hc | rfl
    · exact .inr (.inr ⟨c, hc, ha⟩)
    · exact .inr (.inl (Array.mem_toList_iff.mp ha))
  | cons x l ih =>
    rw [List.toChunks.go] at hc
    split at hc
    · have hrest := ih hc
      simp only [Array.mem_push, Array.mkEmpty_eq, Array.not_mem_empty, false_or] at hrest
      grind
    · have hrest := ih hc
      grind

theorem mem_of_mem_toChunks {n : ℕ} {l c : List α} (hc : c ∈ l.toChunks n) {a : α} (ha : a ∈ c) :
    a ∈ l := by
  cases l with
  | nil => simp [List.toChunks] at hc
  | cons x l =>
    cases n with
    | zero =>
      have hone : c = x :: l := mem_singleton.mp hc
      exact hone ▸ ha
    | succ n =>
      have hrest := mem_of_mem_toChunks_go hc ha
      grind

end Chunks

section Keys

variable {key : α → κ} {rows : List α} {k : κ} {r : α}

theorem eq_of_key (hrows : (rows.map key).Nodup) {q : α} (hr : r ∈ rows) (hq : q ∈ rows)
    (h : key r = key q) : r = q := inj_on_of_nodup_map hrows hr hq h

variable [DecidableEq κ]

def row? (key : α → κ) (rows : List α) (k : κ) : Option α := rows.find? fun r => key r = k

theorem row?_key (h : row? key rows k = some r) : key r = k := by
  simpa using List.find?_some h

theorem row?_mem (h : row? key rows k = some r) : r ∈ rows := mem_of_find?_eq_some h

theorem row?_eq_some (hrows : (rows.map key).Nodup) (hr : r ∈ rows) :
    row? key rows (key r) = some r := by
  cases h : row? key rows (key r) with
  | none =>
    have := List.find?_eq_none.mp h r hr
    simp at this
  | some q => rw [eq_of_key hrows (row?_mem h) hr (row?_key h)]

theorem filter_key_eq (hrows : (rows.map key).Nodup) (hr : r ∈ rows) :
    (rows.filter fun q => key q = key r) = [r] := by
  induction rows with
  | nil => cases hr
  | cons q rest ih =>
    obtain ⟨hnew, hrest⟩ := nodup_cons.mp hrows
    rcases mem_cons.mp hr with rfl | hr
    · have hnone : rest.filter (fun q => key q = key r) = [] := by
        refine filter_eq_nil_iff.mpr fun q hq => ?_
        simp only [decide_eq_true_eq]
        exact fun heq => hnew (mem_map.mpr ⟨q, hq, heq⟩)
      simp [hnone]
    · have hne : key q ≠ key r := fun heq => hnew (mem_map.mpr ⟨r, hr, heq.symm⟩)
      simp [hne, ih hrest hr]

theorem filterMap_row? (hrows : (rows.map key).Nodup) :
    (rows.map key).filterMap (row? key rows) = rows := by
  rw [filterMap_map]
  have hrow : ∀ r ∈ rows, (row? key rows ∘ key) r = some r := fun r hr => row?_eq_some hrows hr
  rw [filterMap_congr hrow, filterMap_some]

theorem row?_isSome_iff : (row? key rows k).isSome ↔ k ∈ rows.map key := by
  simp [row?]

theorem row?_map {f : α → α} (h : ∀ r ∈ rows, key (f r) = key r) :
    row? key (rows.map f) k = (row? key rows k).map f := by
  induction rows with
  | nil => rfl
  | cons q rest ih =>
    have hrest := ih fun r hr => h r (mem_cons_of_mem _ hr)
    unfold row? at hrest ⊢
    rw [map_cons, List.find?_cons, List.find?_cons, h q mem_cons_self]
    by_cases hk : key q = k
    · simp [hk]
    · simpa [hk] using hrest

theorem row?_updateWhere {p : α → Bool} {f : α → α} (h : ∀ r, key (f r) = key r) :
    row? key (updateWhere p f rows) k = (row? key rows k).map fun r => if p r then f r else r := by
  refine row?_map fun r _ => ?_
  by_cases hp : p r
  · rw [if_pos hp, h]
  · rw [if_neg hp]

variable (key) in
theorem sum_by_key {M : Type*} [AddCommMonoid M] {look : κ → Option α} {keys : Finset κ}
    (hrows : rows.Nodup) (hkeys : ∀ r ∈ rows, key r ∈ keys)
    (hlook : ∀ k r, look k = some r ↔ r ∈ rows ∧ key r = k) (f : α → M) :
    (rows.map f).sum = ∑ k ∈ keys, (look k).elim 0 f := by
  classical
  rw [← sum_toFinset f hrows,
    ← Finset.sum_fiberwise_of_maps_to fun r hr => hkeys r (mem_toFinset.mp hr)]
  refine Finset.sum_congr rfl fun k _ => ?_
  cases h : look k with
  | none =>
    refine Finset.sum_eq_zero fun r hr => ?_
    rw [Finset.mem_filter, mem_toFinset, ← hlook, h] at hr
    cases hr
  | some r =>
    have hone : rows.toFinset.filter (fun q => key q = k) = {r} := by
      ext q
      rw [Finset.mem_filter, mem_toFinset, ← hlook, h, Finset.mem_singleton, Option.some_inj]
      exact eq_comm
    rw [hone, Finset.sum_singleton]
    rfl

/-- The rows whose key an earlier row has, each after the first row of its key. -/
def repeats (key : α → κ) (rows : List α) : List (α × α) := go [] rows
where
  go (seen : List α) : List α → List (α × α)
    | [] => []
    | r :: rest =>
      match row? key seen (key r) with
      | none => go (seen ++ [r]) rest
      | some first => (first, r) :: go seen rest

theorem repeats_go_eq_nil_iff {seen : List α} (hseen : (seen.map key).Nodup) :
    repeats.go key seen rows = [] ↔ ((seen ++ rows).map key).Nodup := by
  induction rows generalizing seen with
  | nil => simpa [repeats.go] using hseen
  | cons r rest ih =>
    cases hrow : row? key seen (key r) with
    | none =>
      have hnew : key r ∉ seen.map key := by
        rw [← row?_isSome_iff, hrow]
        exact Bool.false_ne_true
      have hnext : ((seen ++ [r]).map key).Nodup := by
        rw [map_append, nodup_append]
        refine ⟨hseen, nodup_singleton _, fun a ha b hb hab => hnew ?_⟩
        rwa [← mem_singleton.mp hb, ← hab]
      rw [repeats.go, hrow, ih hnext, append_assoc, singleton_append]
    | some first =>
      have hold : key r ∈ seen.map key := by
        rw [← row?_isSome_iff, hrow]
        rfl
      rw [repeats.go, hrow, map_append, map_cons]
      refine iff_of_false (cons_ne_nil _ _) fun h => ?_
      exact disjoint_of_nodup_append h hold mem_cons_self

theorem repeats_eq_nil_iff : repeats key rows = [] ↔ (rows.map key).Nodup :=
  repeats_go_eq_nil_iff nodup_nil

end Keys

end LotusCore.Table
