import Mathlib.Data.List.Forall2

/-!
# Computations that keep their state when they raise

In a language with mutable objects an exception does not undo the writes made before it. Such code
is a computation in `EStateM ε σ`: it ends with a value or an exception, and with a state in both
cases.

* `Exec.call`: a pure expression that may raise, inside such a computation.
* `catching`, `ensure`, `zoom`: exception clauses, final clauses, and computations on a component.
* `bind_eq_ok` and its companions: what a successful run went through.
* `foldlM_invariant`: what every step keeps, a whole run keeps.
* `Frame R m`: every run of `m`, raising or not, ends in a state related to its start by `R`.
-/

namespace Exec

open List

variable {ε σ τ α β : Type}

/-- A pure expression that may raise, evaluated without touching the state. -/
def call (x : Except ε α) : EStateM ε σ α := fun s =>
  match x with
  | .ok a => .ok a s
  | .error e => .error e s

instance monadLiftExcept : MonadLift (Except ε) (EStateM ε σ) := ⟨call⟩

/-- The state a run ends in, whether it returned or raised. -/
def finalState : EStateM.Result ε σ α → σ
  | .ok _ s => s
  | .error _ s => s

def stateAfter (m : EStateM ε σ α) (s : σ) : Except ε σ :=
  match m s with
  | .ok _ s' => .ok s'
  | .error e _ => .error e

/-- The value and the state of a completed run. -/
def outcome (m : EStateM ε σ α) (s : σ) : Except ε (α × σ) :=
  match m s with
  | .ok a s' => .ok (a, s')
  | .error e _ => .error e

/-- Handle the exceptions a clause names; the writes made before the exception stay. -/
def catching (p : ε → Bool) (m : EStateM ε σ α) (handler : ε → EStateM ε σ α) : EStateM ε σ α :=
  fun s =>
    match m s with
    | .ok a s' => .ok a s'
    | .error e s' => if p e then handler e s' else .error e s'

/-- Run a last step whether the computation returned or raised. -/
def ensure (m : EStateM ε σ α) (last : EStateM ε σ PUnit) : EStateM ε σ α := fun s =>
  match m s with
  | .ok a s' =>
    match last s' with
    | .ok _ s'' => .ok a s''
    | .error e s'' => .error e s''
  | .error e s' =>
    match last s' with
    | .ok _ s'' => .error e s''
    | .error e' s'' => .error e' s''

/-- Run a computation on one component of a larger state. -/
def zoom (get : τ → σ) (put : τ → σ → τ) (m : EStateM ε σ α) : EStateM ε τ α := fun t =>
  match m (get t) with
  | .ok a s => .ok a (put t s)
  | .error e s => .error e (put t s)

/-! ## Successful runs -/

section Ok

variable {s s' : σ} {a : α} {b : β}

theorem bind_eq_ok {x : EStateM ε σ α} {f : α → EStateM ε σ β} :
    (x >>= f) s = .ok b s' ↔ ∃ a s₁, x s = .ok a s₁ ∧ f a s₁ = .ok b s' := by
  show EStateM.bind x f s = _ ↔ _
  unfold EStateM.bind
  cases hx : x s with
  | ok a s₁ =>
    constructor
    · intro h; exact ⟨a, s₁, rfl, h⟩
    · rintro ⟨_, _, h1, h2⟩; cases h1; exact h2
  | error e s₁ => simp

theorem pure_eq_ok {a' : α} : (pure a : EStateM ε σ α) s = .ok a' s' ↔ a' = a ∧ s' = s := by
  show EStateM.Result.ok a s = _ ↔ _
  constructor
  · intro h; cases h; exact ⟨rfl, rfl⟩
  · rintro ⟨rfl, rfl⟩; rfl

theorem throw_eq_ok {e : ε} : (throw e : EStateM ε σ α) s = .ok a s' ↔ False := by
  show EStateM.Result.error e s = _ ↔ _
  simp

theorem get_eq_ok {r : σ} : (get : EStateM ε σ σ) s = .ok r s' ↔ r = s ∧ s' = s := by
  show EStateM.Result.ok s s = _ ↔ _
  simp only [EStateM.Result.ok.injEq]
  exact ⟨fun h => ⟨h.1.symm, h.2.symm⟩, fun h => ⟨h.1.symm, h.2.symm⟩⟩

theorem modify_eq_ok {f : σ → σ} {u : PUnit} :
    (modify f : EStateM ε σ PUnit) s = .ok u s' ↔ s' = f s := by
  show EStateM.Result.ok PUnit.unit (f s) = _ ↔ _
  constructor
  · intro h; cases h; rfl
  · rintro rfl; rfl

theorem liftM_eq_ok {x : Except ε α} :
    (liftM x : EStateM ε σ α) s = .ok a s' ↔ x = .ok a ∧ s' = s := by
  show call x s = .ok a s' ↔ _
  cases x with
  | ok v =>
    simp only [call, EStateM.Result.ok.injEq, Except.ok.injEq]
    exact ⟨fun h => ⟨h.1, h.2.symm⟩, fun h => ⟨h.1, h.2.symm⟩⟩
  | error e => simp [call]

theorem bind_liftM_eq_ok {x : Except ε α} {f : α → EStateM ε σ β} :
    ((liftM x : EStateM ε σ α) >>= f) s = .ok b s' ↔ ∃ a, x = .ok a ∧ f a s = .ok b s' := by
  rw [bind_eq_ok]
  constructor
  · rintro ⟨a, s₁, h1, h2⟩
    obtain ⟨hx, rfl⟩ := liftM_eq_ok.mp h1
    exact ⟨a, hx, h2⟩
  · rintro ⟨a, hx, h2⟩
    exact ⟨a, s, liftM_eq_ok.mpr ⟨hx, rfl⟩, h2⟩

theorem bind_get_eq_ok {f : σ → EStateM ε σ β} :
    ((get : EStateM ε σ σ) >>= f) s = .ok b s' ↔ f s s = .ok b s' := Iff.rfl

theorem bind_modify_eq_ok {g : σ → σ} {f : PUnit → EStateM ε σ β} :
    ((modify g : EStateM ε σ PUnit) >>= f) s = .ok b s' ↔ f ⟨⟩ (g s) = .ok b s' := Iff.rfl

theorem stateAfter_eq_ok {m : EStateM ε σ α} :
    stateAfter m s = .ok s' ↔ ∃ a, m s = .ok a s' := by
  unfold stateAfter
  cases m s with
  | ok v s₁ => simp
  | error e s₁ => simp

theorem outcome_eq_ok {m : EStateM ε σ α} : outcome m s = .ok (a, s') ↔ m s = .ok a s' := by
  unfold outcome
  cases m s with
  | ok v s₁ => simp
  | error e s₁ => simp

theorem ensure_eq_ok {m : EStateM ε σ α} {last : EStateM ε σ PUnit} {s s' : σ} {a : α} :
    ensure m last s = .ok a s' ↔ ∃ s₁, m s = .ok a s₁ ∧ last s₁ = .ok () s' := by
  unfold ensure
  cases h : m s with
  | ok a' s₁ =>
    cases h' : last s₁ with
    | ok _ s₂ => simp +contextual [h']
    | error _ s₂ => simp +contextual [h']
  | error e s₁ =>
    cases h' : last s₁ with
    | ok _ s₂ => simp [h']
    | error _ s₂ => simp [h']

theorem zoom_eq_ok {get : τ → σ} {put : τ → σ → τ} {m : EStateM ε σ α} {t t' : τ} :
    zoom get put m t = .ok a t' ↔ ∃ s', m (get t) = .ok a s' ∧ t' = put t s' := by
  unfold zoom
  cases m (get t) with
  | ok v s₁ =>
    simp only [EStateM.Result.ok.injEq]
    constructor
    · rintro ⟨rfl, rfl⟩; exact ⟨s₁, ⟨rfl, rfl⟩, rfl⟩
    · rintro ⟨s', ⟨rfl, rfl⟩, rfl⟩; exact ⟨rfl, rfl⟩
  | error e s₁ => simp

end Ok

/-! ## Raising runs -/

section Error

variable {s s' : σ} {e : ε}

theorem bind_liftM_eq_error {x : Except ε α} {f : α → EStateM ε σ β} :
    ((liftM x : EStateM ε σ α) >>= f) s = .error e s' ↔
      (x = .error e ∧ s' = s) ∨ ∃ a, x = .ok a ∧ f a s = .error e s' := by
  show EStateM.bind (call x) f s = _ ↔ _
  unfold EStateM.bind call
  cases x with
  | ok a => simp
  | error e' => simp [eq_comm]

theorem bind_get_eq_error {f : σ → EStateM ε σ β} :
    ((get : EStateM ε σ σ) >>= f) s = .error e s' ↔ f s s = .error e s' := Iff.rfl

theorem bind_modify_eq_error {g : σ → σ} {f : PUnit → EStateM ε σ β} :
    ((modify g : EStateM ε σ PUnit) >>= f) s = .error e s' ↔ f ⟨⟩ (g s) = .error e s' := Iff.rfl

theorem bind_eq_error {x : EStateM ε σ α} {f : α → EStateM ε σ β} :
    (x >>= f) s = .error e s' ↔
      x s = .error e s' ∨ ∃ a s₁, x s = .ok a s₁ ∧ f a s₁ = .error e s' := by
  show EStateM.bind x f s = _ ↔ _
  unfold EStateM.bind
  cases x s with
  | ok a s₁ => simp
  | error e' s₁ => simp

theorem pure_eq_error {a : α} : (pure a : EStateM ε σ α) s = .error e s' ↔ False := by
  show EStateM.Result.ok a s = _ ↔ _
  simp

theorem modify_eq_error {g : σ → σ} :
    (modify g : EStateM ε σ PUnit) s = .error e s' ↔ False := by
  show EStateM.Result.ok PUnit.unit (g s) = _ ↔ _
  simp

theorem stateAfter_eq_error {m : EStateM ε σ α} :
    stateAfter m s = .error e ↔ ∃ s', m s = .error e s' := by
  unfold stateAfter
  cases m s with
  | ok v s₁ => simp
  | error e' s₁ => simp

theorem zoom_eq_error {get : τ → σ} {put : τ → σ → τ} {m : EStateM ε σ α} {t t' : τ} :
    zoom get put m t = .error e t' ↔ ∃ s', m (get t) = .error e s' ∧ t' = put t s' := by
  unfold zoom
  cases m (get t) with
  | ok v s₁ => simp
  | error e' s₁ =>
    simp only [EStateM.Result.error.injEq]
    constructor
    · rintro ⟨rfl, rfl⟩; exact ⟨s₁, ⟨rfl, rfl⟩, rfl⟩
    · rintro ⟨s', ⟨rfl, rfl⟩, rfl⟩; exact ⟨rfl, rfl⟩

end Error

variable {f : α → Except ε β}

theorem except_bind_eq_ok {x : Except ε α} {b : β} :
    (x >>= f) = .ok b ↔ ∃ a, x = .ok a ∧ f a = .ok b := by
  cases x with
  | ok a => simp [bind, Except.bind]
  | error e => simp [bind, Except.bind]

theorem except_seq_eq_ok {x : Except ε Unit} {y : Except ε β} {b : β} :
    (x >>= fun _ => y) = .ok b ↔ x = .ok () ∧ y = .ok b := by
  rw [except_bind_eq_ok]
  exact ⟨fun ⟨_, hx, hy⟩ => ⟨hx, hy⟩, fun ⟨hx, hy⟩ => ⟨(), hx, hy⟩⟩

theorem except_map_eq_ok {x : Except ε α} {f : α → β} {b : β} :
    x.map f = .ok b ↔ ∃ a, x = .ok a ∧ f a = b := by
  cases x with
  | error e => simp [Except.map]
  | ok a => simp [Except.map]

/-- The state a transaction leaves: the one it returned, or the old one if it raised. -/
def committed (s : σ) : Except ε (α × σ) → σ
  | .ok (_, s') => s'
  | .error _ => s

theorem committed_of {P : σ → Prop} {s : σ} {result : Except ε (α × σ)} (hs : P s)
    (h : ∀ a s', result = .ok (a, s') → P s') : P (committed s result) := by
  cases result with
  | error e => exact hs
  | ok p => exact h p.1 p.2 rfl

theorem except_bind_pure_eq_error {x : Except ε α} {f : α → β} {e : ε} :
    (x >>= fun a => pure (f a)) = .error e ↔ x = .error e := by
  cases x with
  | error e' => simp [bind, Except.bind]
  | ok a => simp [bind, Except.bind, pure, Except.pure]

/-- Computations that agree on the value of the first one are equal. -/
theorem except_bind_congr {m : Except ε α} {f g : α → Except ε β}
    (h : ∀ a, m = .ok a → f a = g a) : (m >>= f) = m >>= g := by
  cases m with
  | error e => rfl
  | ok a => exact h a rfl

variable {l : List α}

theorem except_mapM_eq_ok {l' : List β} :
    l.mapM f = .ok l' ↔ List.Forall₂ (fun a b => f a = .ok b) l l' := by
  induction l generalizing l' with
  | nil =>
    rw [mapM_nil, forall₂_nil_left_iff]
    constructor
    · intro h; cases h; rfl
    · rintro rfl; rfl
  | cons a l ih =>
    rw [mapM_cons, except_bind_eq_ok]
    constructor
    · rintro ⟨b, hb, h⟩
      obtain ⟨bs, hbs, h⟩ := except_bind_eq_ok.mp h
      cases h
      exact .cons hb (ih.mp hbs)
    · intro h
      cases h with
      | cons hb hbs => exact ⟨_, hb, except_bind_eq_ok.mpr ⟨_, ih.mpr hbs, rfl⟩⟩

theorem except_mapM_eq_map {g : α → β}
    (h : ∀ a ∈ l, f a = .ok (g a)) : l.mapM f = .ok (l.map g) := by
  rw [except_mapM_eq_ok, forall₂_map_right_iff, forall₂_same]
  exact h

theorem except_mapM_mem {l' : List β} (h : l.mapM f = .ok l')
    {b : β} (hb : b ∈ l') : ∃ a ∈ l, f a = .ok b := by
  induction except_mapM_eq_ok.mp h with
  | nil => simp at hb
  | @cons a b' l l' hab _ ih =>
    rcases mem_cons.mp hb with rfl | hb
    · exact ⟨a, mem_cons_self, hab⟩
    · obtain ⟨a', ha', hab'⟩ := ih (except_mapM_eq_ok.mpr ‹_›) hb
      exact ⟨a', mem_cons_of_mem _ ha', hab'⟩

theorem except_mapM_exists_mem {l' : List β}
    (h : l.mapM f = .ok l') {a : α} (ha : a ∈ l) : ∃ b ∈ l', f a = .ok b := by
  induction except_mapM_eq_ok.mp h with
  | nil => cases ha
  | @cons a' b l l' hab _ ih =>
    rcases mem_cons.mp ha with rfl | ha
    · exact ⟨b, mem_cons_self, hab⟩
    · obtain ⟨b', hb', hab'⟩ := ih (except_mapM_eq_ok.mpr ‹_›) ha
      exact ⟨b', mem_cons_of_mem _ hb', hab'⟩

theorem except_mapM_flatMap {γ : Type} {l : List γ} {f : γ → List α} {g : α → Except ε β}
    {k : γ → β} (h : ∀ c ∈ l, (f c).mapM g = .ok [k c]) : (l.flatMap f).mapM g = .ok (l.map k) := by
  induction l with
  | nil => rfl
  | cons c rest ih =>
    obtain ⟨hc, hrest⟩ := forall_mem_cons.mp h
    rw [flatMap_cons, mapM_append, hc, ih hrest]
    rfl

/-- A list of computations completes exactly when each of them does. -/
theorem except_mapM_exists_ok : (∃ l', l.mapM f = .ok l') ↔ ∀ a ∈ l, ∃ b, f a = .ok b := by
  induction l with
  | nil => simp [pure, Except.pure]
  | cons a l ih =>
    rw [forall_mem_cons, ← ih]
    constructor
    · rintro ⟨l', h⟩
      cases except_mapM_eq_ok.mp h with
      | cons hb hbs => exact ⟨⟨_, hb⟩, _, except_mapM_eq_ok.mpr hbs⟩
    · rintro ⟨⟨b, hb⟩, l', h⟩
      exact ⟨b :: l', except_mapM_eq_ok.mpr (.cons hb (except_mapM_eq_ok.mp h))⟩

theorem except_mapM_congr {f g : α → Except ε β} (h : ∀ a ∈ l, f a = g a) :
    l.mapM f = l.mapM g := by
  induction l with
  | nil => rfl
  | cons a l ih =>
    rw [mapM_cons, mapM_cons, h a mem_cons_self,
      ih fun b hb => h b (mem_cons_of_mem _ hb)]

/-- Two passes over a list complete exactly when one pass with both steps does. -/
theorem except_mapM_comp {γ : Type} {g : β → Except ε γ} {r : List γ} :
    (∃ m, l.mapM f = .ok m ∧ m.mapM g = .ok r) ↔ l.mapM (fun a => f a >>= g) = .ok r := by
  simp only [except_mapM_eq_ok]
  constructor
  · rintro ⟨m, hf, hg⟩
    induction hf generalizing r with
    | nil =>
      cases hg
      exact .nil
    | cons hab _ ih =>
      cases hg with
      | cons hbc hg => exact .cons (except_bind_eq_ok.mpr ⟨_, hab, hbc⟩) (ih hg)
  · intro h
    induction h with
    | nil => exact ⟨[], .nil, .nil⟩
    | cons hac _ ih =>
      obtain ⟨b, hab, hbc⟩ := except_bind_eq_ok.mp hac
      obtain ⟨m, hf, hg⟩ := ih
      exact ⟨b :: m, .cons hab hf, .cons hbc hg⟩

/-- **Run invariant.** What one completed step keeps, a completed run keeps. -/
theorem foldlM_invariant {step : σ → α → Except ε σ} {I : σ → Prop}
    (hstep : ∀ a ∈ l, ∀ s s', I s → step s a = .ok s' → I s') {s s' : σ} (hs : I s)
    (h : l.foldlM step s = .ok s') : I s' := by
  induction l generalizing s with
  | nil =>
    cases h
    exact hs
  | cons a l ih =>
    rw [foldlM_cons, except_bind_eq_ok] at h
    obtain ⟨s₁, h1, h⟩ := h
    exact ih (fun b hb => hstep b (by simp [hb])) (hstep a (by simp) s s₁ hs h1) h

/-! ## Frames -/

/-- Every run of `m` ends in a state related to its start by `R`. -/
def Frame (R : σ → σ → Prop) (m : EStateM ε σ α) : Prop := ∀ s, R s (finalState (m s))

section Frame

variable {R : σ → σ → Prop} [Std.Refl R]

theorem Frame.pure (a : α) : Frame R (pure a : EStateM ε σ α) := fun s => Std.Refl.refl s

theorem Frame.get : Frame R (get : EStateM ε σ σ) := fun s => Std.Refl.refl s

theorem Frame.liftM (x : Except ε α) : Frame R (liftM x : EStateM ε σ α) := by
  intro s
  cases x <;> exact Std.Refl.refl s

omit [Std.Refl R] in
theorem finalState_bind [IsTrans σ R] {x : EStateM ε σ α} {f : α → EStateM ε σ β} {s : σ}
    (hx : R s (finalState (x s)))
    (hf : ∀ a s₁, x s = .ok a s₁ → R s₁ (finalState (f a s₁))) :
    R s (finalState ((x >>= f) s)) := by
  show R s (finalState (EStateM.bind x f s))
  unfold EStateM.bind
  cases h : x s with
  | ok a s₁ =>
    rw [h] at hx
    exact IsTrans.trans s s₁ _ hx (hf a s₁ h)
  | error e s₁ =>
    rw [h] at hx
    exact hx

omit [Std.Refl R] in
theorem Frame.bind [IsTrans σ R] {x : EStateM ε σ α} {f : α → EStateM ε σ β}
    (hx : Frame R x) (hf : ∀ a, Frame R (f a)) : Frame R (x >>= f) := fun s =>
  finalState_bind (hx s) fun a s₁ _ => hf a s₁

omit [Std.Refl R] in
theorem Frame.ite {p : Prop} [Decidable p] {x y : EStateM ε σ α}
    (hx : Frame R x) (hy : Frame R y) : Frame R (if p then x else y) := by
  by_cases h : p
  · rw [if_pos h]; exact hx
  · rw [if_neg h]; exact hy

omit [Std.Refl R] in
theorem Frame.catching [IsTrans σ R] {p : ε → Bool} {m : EStateM ε σ α}
    {h : ε → EStateM ε σ α} (hm : Frame R m) (hh : ∀ e, Frame R (h e)) :
    Frame R (catching p m h) := by
  intro s
  have h1 := hm s
  unfold Exec.catching
  cases hr : m s with
  | ok a s₁ =>
    rw [hr] at h1
    exact h1
  | error e s₁ =>
    rw [hr] at h1
    dsimp only
    split_ifs
    · exact IsTrans.trans s s₁ _ h1 (hh e s₁)
    · exact h1

omit [Std.Refl R] in
theorem Frame.ensure [IsTrans σ R] {m : EStateM ε σ α} {last : EStateM ε σ PUnit}
    (hm : Frame R m) (hl : Frame R last) : Frame R (ensure m last) := by
  intro s
  have h1 := hm s
  unfold Exec.ensure
  cases hr : m s with
  | ok a s₁ =>
    rw [hr] at h1
    have h2 := IsTrans.trans s s₁ _ h1 (hl s₁)
    dsimp only
    cases hr' : last s₁ with
    | ok _ s₂ => rwa [hr'] at h2
    | error _ s₂ => rwa [hr'] at h2
  | error e s₁ =>
    rw [hr] at h1
    have h2 := IsTrans.trans s s₁ _ h1 (hl s₁)
    dsimp only
    cases hr' : last s₁ with
    | ok _ s₂ => rwa [hr'] at h2
    | error _ s₂ => rwa [hr'] at h2

omit [Std.Refl R] in
/-- A computation on a component keeps what does not depend on the component. -/
theorem Frame.zoom {get : σ → τ} {put : σ → τ → σ} (h : ∀ s c, R s (put s c))
    (m : EStateM ε τ α) : Frame R (zoom get put m) := by
  intro s
  unfold Exec.zoom
  cases m (get s) with
  | ok a c => exact h s c
  | error e c => exact h s c

end Frame

end Exec
