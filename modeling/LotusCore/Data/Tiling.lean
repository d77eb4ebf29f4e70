import Mathlib.Data.List.Sort
import Mathlib.Data.List.Chain
import Mathlib.Order.MinMax

/-!
# Tilings of an interval

Pieces of a half-open interval of a linear order, each with a first point and an end.

* `tiles`: the scan of sorted pieces that keeps the end of what is covered so far.
* **`tiles_iff`**: it accepts the pieces that, cut to the interval, hold each of its points once.
* `sweep`: the scan of sorted pieces that may overlap; **`le_sweep_iff`**: it arrives exactly when
  the pieces hold every point on the way.
* `eq_of_countP_eq_one`: the one element of a list with a property.
* `Contiguous`: pieces that follow each other; **`Contiguous.exists_covers`**,
  **`Contiguous.eq_of_covers`**: each point from the first start to the last end is in one of them.
* `Contiguous.dropWhile_of_covers`: what is left from a point on starts with the piece that holds
  it.
-/

namespace LotusCore.Tiling

open List

variable {α τ : Type*} [LinearOrder τ] (lo hi : α → τ)

/-- The piece holds the point. -/
def Covers (a : α) (d : τ) : Prop := lo a ≤ d ∧ d < hi a
  deriving Decidable

/-- The scan of the pieces cut to the interval, with the end of what is covered so far. -/
def tiles (s e : τ) : List α → τ → Bool
  | [], c => c = e
  | a :: rest, c =>
    if min e (hi a) ≤ max s (lo a) then tiles s e rest c
    else max s (lo a) = c && tiles s e rest (min e (hi a))

/-- How often the pieces hold a point. -/
def cover (l : List α) (d : τ) : ℕ := l.countP fun a => Covers lo hi a d

variable {lo hi} {l l' : List α} {s e c d : τ} {a b : α}

theorem cover_cons :
    cover lo hi (a :: l) d = cover lo hi l d + if Covers lo hi a d then 1 else 0 := by
  simp [cover, countP_cons]

theorem cover_perm (h : l.Perm l') : cover lo hi l d = cover lo hi l' d := h.countP_eq _

theorem eq_of_countP_eq_one {p : α → Bool} (h : l.countP p = 1) (ha : a ∈ l) (hb : b ∈ l)
    (pa : p a) (pb : p b) : a = b := by
  rw [countP_eq_length_filter, length_eq_one_iff] at h
  obtain ⟨x, hx⟩ := h
  have hax : a ∈ [x] := hx ▸ mem_filter.mpr ⟨ha, pa⟩
  have hbx : b ∈ [x] := hx ▸ mem_filter.mpr ⟨hb, pb⟩
  rw [mem_singleton.mp hax, mem_singleton.mp hbx]

/-- A piece with no part in the interval holds none of its points. -/
theorem not_covers_of_empty (h : min e (hi a) ≤ max s (lo a)) (hs : s ≤ d) (he : d < e) :
    ¬ Covers lo hi a d := by
  rintro ⟨hlo, hhi⟩
  exact absurd (h.trans (max_le hs hlo)) (not_le.mpr (lt_min he hhi))

theorem covers_cut_iff (hs : s ≤ d) (he : d < e) :
    Covers lo hi a d ↔ max s (lo a) ≤ d ∧ d < min e (hi a) := by
  simp [Covers, hs, he]

/-- A piece that starts where the covered part ends leaves the rest to cover what follows it. -/
theorem cover_cons_at (hcut : max s (lo a) < min e (hi a)) (hs : s ≤ d) (he : d < e) :
    cover lo hi (a :: l) d = (if max s (lo a) ≤ d then 1 else 0) ↔
      cover lo hi l d = if min e (hi a) ≤ d then 1 else 0 := by
  rw [cover_cons]
  by_cases hend : min e (hi a) ≤ d
  · have hstart : max s (lo a) ≤ d := hcut.le.trans hend
    have hnot : ¬ Covers lo hi a d := fun h =>
      absurd ((covers_cut_iff hs he).mp h).2 (not_lt.mpr hend)
    simp [hend, hstart, hnot]
  · by_cases hstart : max s (lo a) ≤ d
    · have hcov : Covers lo hi a d := (covers_cut_iff hs he).mpr ⟨hstart, not_le.mp hend⟩
      simp [hend, hstart, hcov]
    · have hnot : ¬ Covers lo hi a d := fun h => hstart ((covers_cut_iff hs he).mp h).1
      simp [hend, hstart, hnot]

theorem cover_eq_zero (h : ∀ a ∈ l, d < lo a) : cover lo hi l d = 0 := by
  rw [cover, countP_eq_zero]
  intro a ha hcov
  exact absurd (of_decide_eq_true hcov).1 (not_le.mpr (h a ha))

/-- The scan from a covered part accepts the sorted pieces that hold each later point of the
interval once and no earlier one. -/
theorem tiles_iff_from (hsorted : l.Pairwise fun a b => lo a ≤ lo b) (hs : s ≤ c) (he : c ≤ e) :
    tiles lo hi s e l c ↔
      ∀ d, s ≤ d → d < e → cover lo hi l d = if c ≤ d then 1 else 0 := by
  induction l generalizing c with
  | nil =>
    rw [tiles, decide_eq_true_iff]
    constructor
    · rintro rfl d - hd
      rw [if_neg (not_le.mpr hd)]
      rfl
    · intro h
      by_contra hne
      have h₀ := h c hs (lt_of_le_of_ne he hne)
      rw [if_pos le_rfl] at h₀
      exact absurd h₀ (by simp [cover])
  | cons a rest ih =>
    obtain ⟨hfirst, hrest⟩ := pairwise_cons.mp hsorted
    rw [tiles]
    split_ifs with hempty
    · rw [ih hrest hs he]
      refine forall_congr' fun d => forall_congr' fun hd => forall_congr' fun hd' => ?_
      rw [cover_cons, if_neg (not_covers_of_empty hempty hd hd'), Nat.add_zero]
    · have hcut : max s (lo a) < min e (hi a) := not_le.mp hempty
      rw [Bool.and_eq_true, decide_eq_true_iff]
      constructor
      · rintro ⟨rfl, htail⟩ d hd hd'
        rw [cover_cons_at hcut hd hd']
        exact (ih hrest ((le_max_left _ _).trans hcut.le) (min_le_left _ _)).mp htail d hd hd'
      · intro h
        have hstart : max s (lo a) = c := by
          rcases lt_trichotomy (max s (lo a)) c with hlt | heq | hgt
          · -- the first point of the piece is covered already
            have hd := h _ (le_max_left s (lo a)) (hlt.trans_le he)
            rw [if_neg (not_le.mpr hlt), cover_cons,
              if_pos ((covers_cut_iff (le_max_left _ _) (hlt.trans_le he)).mpr ⟨le_rfl, hcut⟩)]
              at hd
            exact absurd hd (by omega)
          · exact heq
          · -- nothing that comes later holds the first point that is not covered
            have hlo : c < lo a := by
              rcases lt_max_iff.mp hgt with h' | h'
              · exact absurd h' (not_lt.mpr hs)
              · exact h'
            have hd := h c hs (hgt.trans (hcut.trans_le (min_le_left _ _)))
            rw [if_pos le_rfl, cover_eq_zero (fun b hb => by
              rcases mem_cons.mp hb with rfl | hb
              · exact hlo
              · exact hlo.trans_le (hfirst b hb))] at hd
            exact absurd hd (by decide)
        subst hstart
        refine ⟨rfl, (ih hrest ((le_max_left _ _).trans hcut.le) (min_le_left _ _)).mpr ?_⟩
        intro d hd hd'
        rw [← cover_cons_at hcut hd hd']
        exact h d hd hd'

theorem tiles_iff (hsorted : l.Pairwise fun a b => lo a ≤ lo b) (h : s ≤ e) :
    tiles lo hi s e l s ↔ ∀ d, s ≤ d → d < e → cover lo hi l d = 1 := by
  rw [tiles_iff_from hsorted le_rfl h]
  refine forall_congr' fun d => forall_congr' fun hd => forall_congr' fun _ => ?_
  rw [if_pos hd]

/-! ## Pieces that may overlap -/

variable (lo hi) in
/-- The scan that moves on to the end of each piece it stands in, and stops before a gap. -/
def sweep (e : τ) : List α → τ → τ
  | [], c => c
  | a :: rest, c =>
    if hi a ≤ c ∨ e ≤ lo a then sweep e rest c
    else if c < lo a then c
    else sweep e rest (max c (hi a))

/-- **The scan arrives exactly when every point is held.** -/
theorem le_sweep_iff (hsorted : l.Pairwise fun a b => lo a ≤ lo b) :
    e ≤ sweep lo hi e l c ↔ ∀ d, c ≤ d → d < e → ∃ a ∈ l, Covers lo hi a d := by
  induction l generalizing c with
  | nil =>
    rw [sweep]
    constructor
    · intro hec d hcd hde
      exact absurd (hde.trans_le (hec.trans hcd)) (lt_irrefl _)
    · intro hall
      by_contra hlt
      obtain ⟨a, ha, -⟩ := hall c le_rfl (not_le.mp hlt)
      cases ha
  | cons a rest ih =>
    obtain ⟨hfirst, hrest⟩ := pairwise_cons.mp hsorted
    rw [sweep]
    by_cases hskip : hi a ≤ c ∨ e ≤ lo a
    · -- the piece holds no point between `c` and `e`
      have hnone : ∀ d, c ≤ d → d < e → ¬ Covers lo hi a d := by
        rintro d hcd hde ⟨hlo, hhi⟩
        rcases hskip with h | h
        · exact absurd (hhi.trans_le (h.trans hcd)) (lt_irrefl _)
        · exact absurd (hde.trans_le (h.trans hlo)) (lt_irrefl _)
      rw [if_pos hskip, ih hrest]
      refine forall_congr' fun d => forall_congr' fun hcd => forall_congr' fun hde => ?_
      simp [hnone d hcd hde]
    rw [if_neg hskip]
    push Not at hskip
    obtain ⟨hhi, hlo⟩ := hskip
    by_cases hgap : c < lo a
    · -- no later piece starts before this one, so none holds `c`
      rw [if_pos hgap]
      refine ⟨fun hec => absurd (hgap.trans hlo) (not_lt.mpr hec), fun hall => ?_⟩
      obtain ⟨b, hb, hcov⟩ := hall c le_rfl (hgap.trans hlo)
      rcases mem_cons.mp hb with rfl | hlater
      · exact absurd hcov.1 (not_le.mpr hgap)
      · exact absurd ((hfirst b hlater).trans hcov.1) (not_le.mpr hgap)
    · rw [if_neg hgap, ih hrest, max_eq_right hhi.le]
      constructor
      · intro hall d hcd hde
        by_cases hd : d < hi a
        · exact ⟨a, mem_cons_self, (not_lt.mp hgap).trans hcd, hd⟩
        · obtain ⟨b, hb, hcov⟩ := hall d (not_lt.mp hd) hde
          exact ⟨b, mem_cons_of_mem _ hb, hcov⟩
      · intro hall d hcd hde
        obtain ⟨b, hb, hcov⟩ := hall d (hhi.le.trans hcd) hde
        rcases mem_cons.mp hb with rfl | hlater
        · exact absurd hcov.2 (not_lt.mpr hcd)
        · exact ⟨b, hlater, hcov⟩

/-! ## Pieces that follow each other -/

variable (lo hi) in
/-- Each piece starts where the one before it ends. -/
def Contiguous (l : List α) : Prop :=
  l.IsChain (fun a b => lo b = hi a) ∧ ∀ a ∈ l, lo a < hi a

theorem Contiguous.tail (h : Contiguous lo hi (a :: l)) : Contiguous lo hi l :=
  ⟨h.1.tail, fun b hb => h.2 b (mem_cons_of_mem _ hb)⟩

theorem Contiguous.le_of_mem_tail (h : Contiguous lo hi (a :: l)) (hb : b ∈ l) : hi a ≤ lo b := by
  induction l generalizing a with
  | nil => cases hb
  | cons x rest ih =>
    have hx : lo x = hi a := (isChain_cons_cons.mp h.1).1
    rcases mem_cons.mp hb with rfl | hb
    · exact hx.ge
    · exact hx.ge.trans ((h.2 x (by simp)).le.trans (ih h.tail hb))

theorem Contiguous.eq_of_covers (h : Contiguous lo hi l) (ha : a ∈ l) (hb : b ∈ l)
    (hca : Covers lo hi a d) (hcb : Covers lo hi b d) : a = b := by
  induction l with
  | nil => cases ha
  | cons x rest ih =>
    rcases mem_cons.mp ha with hax | hax <;> rcases mem_cons.mp hb with hbx | hbx
    · rw [hax, hbx]
    · subst hax
      exact absurd (hca.2.trans_le ((h.le_of_mem_tail hbx).trans hcb.1)) (lt_irrefl _)
    · subst hbx
      exact absurd (hcb.2.trans_le ((h.le_of_mem_tail hax).trans hca.1)) (lt_irrefl _)
    · exact ih h.tail hax hbx

theorem Contiguous.exists_covers (h : Contiguous lo hi l) (hfirst : l.head? = some a)
    (hlast : l.getLast? = some b) (hlo : lo a ≤ d) (hhi : d < hi b) :
    ∃ x ∈ l, Covers lo hi x d := by
  induction l generalizing a with
  | nil => cases hfirst
  | cons x rest ih =>
    obtain rfl : x = a := Option.some.inj hfirst
    rcases lt_or_ge d (hi x) with hd | hd
    · exact ⟨x, mem_cons_self, hlo, hd⟩
    · cases rest with
      | nil =>
        obtain rfl : x = b := Option.some.inj hlast
        exact absurd hhi (not_lt.mpr hd)
      | cons y rest =>
        have hy : lo y = hi x := (isChain_cons_cons.mp h.1).1
        obtain ⟨z, hz, hcov⟩ := ih h.tail rfl hlast (hy.trans_le hd)
        exact ⟨z, mem_cons_of_mem _ hz, hcov⟩

theorem Contiguous.le_last (h : Contiguous lo hi l) (hlast : l.getLast? = some b) (ha : a ∈ l) :
    hi a ≤ hi b := by
  induction l generalizing a with
  | nil => cases ha
  | cons x rest ih =>
    cases rest with
    | nil =>
      obtain rfl : x = b := Option.some.inj hlast
      rw [mem_singleton.mp ha]
    | cons y rest =>
      rcases mem_cons.mp ha with rfl | ha
      · have hy : hi a ≤ lo y := h.le_of_mem_tail mem_cons_self
        exact hy.trans ((h.2 y (by simp)).le.trans (ih h.tail hlast mem_cons_self))
      · exact ih h.tail hlast ha

theorem Contiguous.dropWhile (h : Contiguous lo hi l) (p : α → Bool) :
    Contiguous lo hi (l.dropWhile p) := by
  induction l with
  | nil => exact h
  | cons x rest ih =>
    rw [dropWhile_cons]
    split_ifs
    · exact ih h.tail
    · exact h

/-- From a point on, the first piece that is left is the one that holds the point. -/
theorem Contiguous.dropWhile_of_covers (h : Contiguous lo hi l) (ha : a ∈ l)
    (hcov : Covers lo hi a c) : ∃ later, l.dropWhile (hi · ≤ c) = a :: later := by
  induction l with
  | nil => cases ha
  | cons x rest ih =>
    rcases mem_cons.mp ha with rfl | hrest
    · exact ⟨rest, dropWhile_cons_of_neg (by simpa using hcov.2)⟩
    · have hx : hi x ≤ c := (h.le_of_mem_tail hrest).trans hcov.1
      rw [dropWhile_cons_of_pos (by simpa using hx)]
      exact ih h.tail hrest

theorem mem_dropWhile_of_covers (ha : a ∈ l) (hd : c ≤ d) (hcov : Covers lo hi a d) :
    a ∈ l.dropWhile (hi · ≤ c) := by
  induction l with
  | nil => exact ha
  | cons x rest ih =>
    by_cases hx : hi x ≤ c
    · rw [dropWhile_cons_of_pos (by simpa using hx)]
      rcases mem_cons.mp ha with rfl | hrest
      · exact absurd (hcov.2.trans_le (hx.trans hd)) (lt_irrefl _)
      · exact ih hrest
    · rwa [dropWhile_cons_of_neg (by simpa using hx)]

end LotusCore.Tiling
