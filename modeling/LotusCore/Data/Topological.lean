import Mathlib.Data.List.MinMax
import Mathlib.Data.Set.Finite.List

/-!
# Topological order by repeated release

Nodes wait for their dependencies. A node is ready when none of them is left; the ready node of
least priority goes next, and the nodes that waited for it lose one dependency.

* `TopologicalState`, `release`, `step`, `run`: the loop, with the counters it keeps.
* `TopologicalState.Sound`: what holds before every round.
* `Sound.step`, `Sound.run`: one round keeps it, so every run does.
* `finish`, `finish_ready`: as many rounds as nodes leave nothing ready.
* `finish_ordered_length_iff`: every node is listed exactly when the dependencies can be ranked.
* `finish_greedy`, `Greedy.le`: the order takes the least node it can, so no other is less.
-/

namespace LotusCore.Topological

open List

variable {κ π : Type*} [DecidableEq κ]

/-- The state of the loop: what is ready, how many dependencies each node waits for, and the nodes
listed so far. -/
structure TopologicalState (κ : Type*) where
  ready : List κ
  indegree : κ → ℕ
  ordered : List κ

/-- One node loses a dependency and becomes ready with its last one. -/
def release (s : TopologicalState κ) (d : κ) : TopologicalState κ where
  ready := if s.indegree d - 1 = 0 then d :: s.ready else s.ready
  indegree := Function.update s.indegree d (s.indegree d - 1)
  ordered := s.ordered

/-- The node is listed and the nodes that wait for it are released. -/
def emit (dependants : κ → List κ) (s : TopologicalState κ) (x : κ) : TopologicalState κ :=
  (dependants x).foldl release
    { s with ready := s.ready.erase x, ordered := s.ordered ++ [x] }

section Run

variable [LinearOrder π] (priority : κ → π) (dependants : κ → List κ)

/-- One round of the loop. -/
def step (s : TopologicalState κ) : TopologicalState κ :=
  match s.ready.argmin priority with
  | none => s
  | some x => emit dependants s x

/-- The loop, for a number of rounds. -/
def run : ℕ → TopologicalState κ → TopologicalState κ
  | 0, s => s
  | n + 1, s => run n (step priority dependants s)

end Run

def start (nodes : List κ) (dependencies : κ → List κ) : TopologicalState κ where
  ready := nodes.filter fun x => (dependencies x).length = 0
  indegree := fun x => (dependencies x).length
  ordered := []

def dependantsOf (nodes : List κ) (dependencies : κ → List κ) (x : κ) : List κ :=
  nodes.filter fun y => x ∈ dependencies y

/-! ## Release -/

variable {l : List κ} {x : κ}

section Release

theorem foldl_release_ordered (l : List κ) (s : TopologicalState κ) :
    (l.foldl release s).ordered = s.ordered := by
  induction l generalizing s with
  | nil => rfl
  | cons d l ih => rw [foldl_cons, ih, release]

theorem foldl_release_indegree (hl : l.Nodup) (s : TopologicalState κ) (x : κ) :
    (l.foldl release s).indegree x = if x ∈ l then s.indegree x - 1 else s.indegree x := by
  induction l generalizing s with
  | nil => simp
  | cons d l ih =>
    have hd := nodup_cons.mp hl
    rw [foldl_cons, ih hd.2]
    by_cases hx : x = d
    · subst hx
      simp [release, hd.1]
    · simp [release, hx]

/-- The released nodes that waited for one dependency only are ready, beside those that were. -/
theorem foldl_release_ready (hl : l.Nodup) (s : TopologicalState κ) :
    (l.foldl release s).ready.Perm ((l.filter fun d => s.indegree d - 1 = 0) ++ s.ready) := by
  induction l generalizing s with
  | nil => simp
  | cons d l ih =>
    have hd := nodup_cons.mp hl
    have hrest : (l.filter fun e => (release s d).indegree e - 1 = 0) =
        l.filter fun e => s.indegree e - 1 = 0 := by
      refine filter_congr fun e he => ?_
      have hne : e ≠ d := fun h => hd.1 (h ▸ he)
      simp [release, hne]
    rw [foldl_cons]
    refine (ih hd.2 (release s d)).trans ?_
    rw [hrest]
    by_cases h0 : s.indegree d - 1 = 0
    · simp only [release, h0, if_true, filter_cons, decide_true, cons_append]
      exact perm_middle
    · simp [release, h0]

theorem emit_ordered (dependants : κ → List κ) (s : TopologicalState κ) (x : κ) :
    (emit dependants s x).ordered = s.ordered ++ [x] := foldl_release_ordered _ _

theorem emit_indegree {dependants : κ → List κ} (hd : (dependants x).Nodup)
    (s : TopologicalState κ) (y : κ) :
    (emit dependants s x).indegree y =
      if y ∈ dependants x then s.indegree y - 1 else s.indegree y :=
  foldl_release_indegree hd _ y

/-- Listing a ready node only moves it; the nodes it completes are added. -/
theorem emit_perm {dependants : κ → List κ} (hd : (dependants x).Nodup)
    {s : TopologicalState κ} (hx : x ∈ s.ready) :
    ((emit dependants s x).ordered ++ (emit dependants s x).ready).Perm
      (((dependants x).filter fun d => s.indegree d - 1 = 0) ++ (s.ordered ++ s.ready)) := by
  have hready : (emit dependants s x).ready.Perm
      (((dependants x).filter fun d => s.indegree d - 1 = 0) ++ s.ready.erase x) :=
    foldl_release_ready hd _
  have hback : (s.ordered ++ [x] ++ s.ready.erase x).Perm (s.ordered ++ s.ready) := by
    rw [append_assoc]
    exact List.Perm.append_left _ (perm_cons_erase hx).symm
  rw [emit_ordered]
  refine (List.Perm.append_left _ hready).trans ?_
  rw [← append_assoc]
  refine (List.Perm.append_right _ perm_append_comm).trans ?_
  rw [append_assoc]
  exact List.Perm.append_left _ hback

end Release

/-! ## What every round keeps -/

/-- The listed and the ready nodes are distinct; they are the nodes that wait for nothing; the
counters count the dependencies not yet listed; and what is listed follows its dependencies. -/
structure TopologicalState.Sound (nodes : List κ) (dependencies : κ → List κ)
    (s : TopologicalState κ) : Prop where
  nodup : (s.ordered ++ s.ready).Nodup
  mem_iff : ∀ x, x ∈ s.ordered ++ s.ready ↔ x ∈ nodes ∧ s.indegree x = 0
  indegree_eq : ∀ x, s.indegree x = ((dependencies x).filter fun y => y ∉ s.ordered).length
  precedes : ∀ x ∈ s.ordered, ∀ y ∈ dependencies x, [y, x].Sublist s.ordered

section Sound

variable {nodes : List κ} {dependencies : κ → List κ} {s : TopologicalState κ}

theorem start_sound (hnodes : nodes.Nodup) :
    (start nodes dependencies).Sound nodes dependencies where
  nodup := by
    simpa [start] using hnodes.filter _
  mem_iff x := by
    simp [start]
  indegree_eq x := by
    simp [start]
  precedes x hx := by
    simp [start] at hx

theorem TopologicalState.Sound.listed (hs : s.Sound nodes dependencies)
    (h0 : s.indegree x = 0) {y : κ} (hy : y ∈ dependencies x) : y ∈ s.ordered := by
  by_contra hn
  have hmem : y ∈ (dependencies x).filter fun y => y ∉ s.ordered := by
    simp [hy, hn]
  have hpos := length_pos_of_mem hmem
  have hcount := hs.indegree_eq x
  omega

/-- Listing one node more takes it off the dependencies still waited for. -/
theorem length_filter_append_singleton (hl : l.Nodup) {o : List κ} (hx : x ∉ o) :
    (l.filter fun y => y ∉ o ++ [x]).length =
      if x ∈ l then (l.filter fun y => y ∉ o).length - 1
      else (l.filter fun y => y ∉ o).length := by
  have herase : (l.filter fun y => y ∉ o ++ [x]) = (l.filter fun y => y ∉ o).erase x := by
    rw [(hl.filter _).erase_eq_filter, filter_filter]
    refine filter_congr fun y _ => ?_
    by_cases hyx : y = x <;> simp [hyx]
  rw [herase, length_erase]
  simp [hx]

/-- A node that waits for an unlisted one is itself neither listed nor ready. -/
theorem TopologicalState.Sound.indegree_ne_zero (hs : s.Sound nodes dependencies) {x y : κ}
    (hx : x ∉ s.ordered) (hy : y ∈ dependantsOf nodes dependencies x) : s.indegree y ≠ 0 := by
  intro h0
  have hxy : x ∈ dependencies y := by simpa using (mem_filter.mp hy).2
  exact hx (hs.listed h0 hxy)

theorem TopologicalState.Sound.emit (hs : s.Sound nodes dependencies) (hnodes : nodes.Nodup)
    (hdeps : ∀ x, (dependencies x).Nodup) (hcovered : ∀ x, x ∉ nodes → dependencies x = [])
    (hx : x ∈ s.ready) :
    (emit (dependantsOf nodes dependencies) s x).Sound nodes dependencies := by
  have hnew : x ∉ s.ordered := fun h => (disjoint_of_nodup_append hs.nodup) h hx
  have hdn : (dependantsOf nodes dependencies x).Nodup := hnodes.filter _
  have hperm := emit_perm hdn hx
  refine ⟨?_, fun y => ?_, fun y => ?_, fun y hy z hz => ?_⟩
  · rw [hperm.nodup_iff]
    refine (hdn.filter _).append hs.nodup fun y hy hold => ?_
    exact hs.indegree_ne_zero hnew (mem_filter.mp hy).1 ((hs.mem_iff y).mp hold).2
  · rw [hperm.mem_iff, emit_indegree hdn, mem_append, hs.mem_iff]
    by_cases hy : y ∈ dependantsOf nodes dependencies x
    · have hwait := hs.indegree_ne_zero hnew hy
      have hnode : y ∈ nodes := (mem_filter.mp hy).1
      simp [hy, hwait, hnode]
    · simp [hy]
  · rw [emit_indegree hdn, emit_ordered, length_filter_append_singleton (hdeps y) hnew,
      ← hs.indegree_eq]
    by_cases hy : x ∈ dependencies y
    · have hnode : y ∈ nodes := by
        by_contra hn
        simp [hcovered y hn] at hy
      simp [dependantsOf, hy, hnode]
    · simp [dependantsOf, hy]
  · rw [emit_ordered] at hy ⊢
    rcases mem_append.mp hy with hold | hlast
    · exact (hs.precedes y hold z hz).trans (sublist_append_left _ _)
    · obtain rfl := mem_singleton.mp hlast
      have h0 := ((hs.mem_iff y).mp (mem_append_right _ hx)).2
      exact List.Sublist.append (singleton_sublist.mpr (hs.listed h0 hz)) (List.Sublist.refl [y])

end Sound

/-! ## Runs -/

section Runs

variable [LinearOrder π] (priority : κ → π) {nodes : List κ} {dependencies : κ → List κ}
  {s : TopologicalState κ}

/-- A round without ready nodes does nothing; any other lists one of them. -/
theorem step_cases (dependants : κ → List κ) (s : TopologicalState κ) :
    (s.ready = [] ∧ step priority dependants s = s) ∨
      ∃ x ∈ s.ready, step priority dependants s = emit dependants s x := by
  unfold step
  cases h : s.ready.argmin priority with
  | none => exact Or.inl ⟨argmin_eq_none.mp h, rfl⟩
  | some x => exact Or.inr ⟨x, argmin_mem h, rfl⟩

/-- What a graph must give the loop: nodes and dependencies listed once, dependencies of nodes
only. -/
structure Declared (nodes : List κ) (dependencies : κ → List κ) : Prop where
  nodes_nodup : nodes.Nodup
  dependencies_nodup : ∀ x, (dependencies x).Nodup
  dependencies_eq_nil : ∀ x, x ∉ nodes → dependencies x = []

theorem TopologicalState.Sound.step (hg : Declared nodes dependencies)
    (hs : s.Sound nodes dependencies) :
    (step priority (dependantsOf nodes dependencies) s).Sound nodes dependencies := by
  rcases step_cases priority (dependantsOf nodes dependencies) s with ⟨_, h⟩ | ⟨x, hx, h⟩
  · rwa [h]
  · rw [h]
    exact hs.emit hg.nodes_nodup hg.dependencies_nodup hg.dependencies_eq_nil hx

theorem TopologicalState.Sound.run (hg : Declared nodes dependencies)
    (hs : s.Sound nodes dependencies) (n : ℕ) :
    (run priority (dependantsOf nodes dependencies) n s).Sound nodes dependencies := by
  induction n generalizing s with
  | zero => exact hs
  | succ n ih => exact ih (hs.step priority hg)

theorem run_eq_self {dependants : κ → List κ} (h : s.ready = []) (n : ℕ) :
    run priority dependants n s = s := by
  induction n with
  | zero => rfl
  | succ n ih =>
    have hstep : Topological.step priority dependants s = s := by
      simp [Topological.step, h]
    rw [Topological.run, hstep, ih]

theorem run_ready_or_length (dependants : κ → List κ) (n : ℕ) (s : TopologicalState κ) :
    (run priority dependants n s).ready = [] ∨
      (run priority dependants n s).ordered.length = s.ordered.length + n := by
  induction n generalizing s with
  | zero => exact Or.inr rfl
  | succ n ih =>
    rcases step_cases priority dependants s with ⟨hnil, _⟩ | ⟨x, _, h⟩
    · rw [run_eq_self priority hnil]
      exact Or.inl hnil
    · rw [Topological.run, h]
      refine (ih _).imp_right fun hlen => ?_
      rw [hlen, emit_ordered, length_append, length_singleton]
      omega

/-- The loop over a graph, with as many rounds as nodes. -/
def finish (nodes : List κ) (dependencies : κ → List κ) : TopologicalState κ :=
  run priority (dependantsOf nodes dependencies) nodes.length (start nodes dependencies)

section DeclaredFacts

variable (hg : Declared nodes dependencies)

include hg

theorem finish_sound : (finish priority nodes dependencies).Sound nodes dependencies :=
  (start_sound hg.nodes_nodup).run priority hg nodes.length

theorem finish_ready : (finish priority nodes dependencies).ready = [] := by
  have hs := finish_sound priority hg
  have hrounds := run_ready_or_length priority (dependantsOf nodes dependencies) nodes.length
    (start nodes dependencies)
  rcases hrounds with h | h
  · exact h
  · have hlen : (finish priority nodes dependencies).ordered.length = nodes.length := by
      exact h.trans (Nat.zero_add _)
    have hle := (hs.nodup.subperm fun x hx => ((hs.mem_iff x).mp hx).1).length_le
    rw [length_append, hlen] at hle
    exact eq_nil_of_length_eq_zero (by omega)

theorem mem_finish_ordered (x : κ) :
    x ∈ (finish priority nodes dependencies).ordered ↔
      x ∈ nodes ∧ ∀ y ∈ dependencies x, y ∈ (finish priority nodes dependencies).ordered := by
  have hs := finish_sound priority hg
  have hmem := hs.mem_iff x
  rw [finish_ready priority hg, append_nil, hs.indegree_eq, length_eq_zero_iff,
    filter_eq_nil_iff] at hmem
  simpa using hmem

theorem finish_ordered_nodup : (finish priority nodes dependencies).ordered.Nodup :=
  (nodup_append.mp (finish_sound priority hg).nodup).1

theorem finish_ordered_perm
    (hlen : (finish priority nodes dependencies).ordered.length = nodes.length) :
    (finish priority nodes dependencies).ordered.Perm nodes := by
  have hsub : (finish priority nodes dependencies).ordered ⊆ nodes :=
    fun x hx => ((mem_finish_ordered priority hg x).mp hx).1
  exact ((finish_ordered_nodup priority hg).subperm hsub).perm_of_length_le hlen.ge

end DeclaredFacts

theorem idxOf_lt_of_sublist (hl : l.Nodup) {x y : κ} (h : [y, x].Sublist l) :
    l.idxOf y < l.idxOf x := by
  obtain ⟨l₁, l₂, rfl, hy, hx⟩ := cons_sublist_iff.mp h
  have hx₂ : x ∈ l₂ := singleton_sublist.mp hx
  have hx₁ : x ∉ l₁ := fun hmem => disjoint_of_nodup_append hl hmem hx₂
  rw [idxOf_append_of_mem hy, idxOf_append_of_notMem hx₁]
  have hlt := idxOf_lt_length_iff.mpr hy
  omega

section Finished

variable (hg : Declared nodes dependencies)

include hg

theorem finish_ordered_length_iff (hclosed : ∀ x ∈ nodes, dependencies x ⊆ nodes) :
    (finish priority nodes dependencies).ordered.length = nodes.length ↔
      ∃ rank : κ → ℕ, ∀ x ∈ nodes, ∀ y ∈ dependencies x, rank y < rank x := by
  constructor
  · intro hlen
    have hperm := finish_ordered_perm priority hg hlen
    refine ⟨fun x => (finish priority nodes dependencies).ordered.idxOf x, fun x hx y hy => ?_⟩
    have hbefore := (finish_sound priority hg).precedes x (hperm.mem_iff.mpr hx) y hy
    exact idxOf_lt_of_sublist (finish_ordered_nodup priority hg) hbefore
  · rintro ⟨rank, hrank⟩
    have hall : ∀ x ∈ nodes, x ∈ (finish priority nodes dependencies).ordered := by
      intro x
      induction h : rank x using Nat.strong_induction_on generalizing x with
      | _ r ih =>
        intro hx
        refine (mem_finish_ordered priority hg x).mpr ⟨hx, fun y hy => ?_⟩
        exact ih (rank y) (h ▸ hrank x hx y hy) y rfl (hclosed x hx hy)
    have hle := (hg.nodes_nodup.subperm hall).length_le
    have hge := ((finish_ordered_nodup priority hg).subperm
      fun x hx => ((mem_finish_ordered priority hg x).mp hx).1).length_le
    omega

theorem idxOf_lt_of_transGen {x y : κ} (hx : x ∈ (finish priority nodes dependencies).ordered)
    (h : Relation.TransGen (fun x y => y ∈ dependencies x) x y) :
    y ∈ (finish priority nodes dependencies).ordered ∧
      (finish priority nodes dependencies).ordered.idxOf y <
        (finish priority nodes dependencies).ordered.idxOf x := by
  have hedge : ∀ {a b}, a ∈ (finish priority nodes dependencies).ordered → b ∈ dependencies a →
      b ∈ (finish priority nodes dependencies).ordered ∧
        (finish priority nodes dependencies).ordered.idxOf b <
          (finish priority nodes dependencies).ordered.idxOf a := fun {a b} ha hb =>
    ⟨((mem_finish_ordered priority hg a).mp ha).2 b hb,
      idxOf_lt_of_sublist (finish_ordered_nodup priority hg)
        ((finish_sound priority hg).precedes a ha b hb)⟩
  induction h with
  | single hb => exact hedge hx hb
  | tail _ hb ih => exact ⟨(hedge ih.1 hb).1, (hedge ih.1 hb).2.trans ih.2⟩

theorem exists_cycle_of_unlisted (hclosed : ∀ x ∈ nodes, dependencies x ⊆ nodes) (hx : x ∈ nodes)
    (hunlisted : x ∉ (finish priority nodes dependencies).ordered) :
    ∃ y ∈ nodes, Relation.ReflTransGen (fun x y => y ∈ dependencies x) x y ∧
      Relation.TransGen (fun x y => y ∈ dependencies x) y y := by
  by_contra hnone
  push Not at hnone
  -- without one, dependence is well founded on the nodes that x depends on
  let below (a b : { y // y ∈ nodes }) : Prop :=
    Relation.ReflTransGen (fun x y => y ∈ dependencies x) x b.1 ∧
      Relation.TransGen (fun x y => y ∈ dependencies x) b.1 a.1
  have hfinite : Finite { y // y ∈ nodes } := finite_toSet nodes
  have htrans : IsTrans _ below := ⟨fun _ _ _ h h' => ⟨h'.1, h'.2.trans h.2⟩⟩
  have hirrefl : Std.Irrefl below := ⟨fun y h => hnone y.1 y.2 h.1 h.2⟩
  have hwf : WellFounded below := Finite.wellFounded_of_trans_of_irrefl below
  have hall : ∀ y : { y // y ∈ nodes },
      Relation.ReflTransGen (fun x y => y ∈ dependencies x) x y.1 →
        y.1 ∈ (finish priority nodes dependencies).ordered := by
    intro y
    induction y using hwf.induction with
    | _ y ih =>
      intro hreach
      refine (mem_finish_ordered priority hg y.1).mpr ⟨y.2, fun z hz => ?_⟩
      exact ih ⟨z, hclosed y.1 y.2 hz⟩ ⟨hreach, .single hz⟩ (hreach.tail hz)
  exact hunlisted (hall ⟨x, hx⟩ .refl)

/-- The loop lists every node exactly when no node depends on itself through others. -/
theorem finish_ordered_length_iff_acyclic (hclosed : ∀ x ∈ nodes, dependencies x ⊆ nodes) :
    (finish priority nodes dependencies).ordered.length = nodes.length ↔
      ∀ x, ¬ Relation.TransGen (fun x y => y ∈ dependencies x) x x := by
  constructor
  · intro hlen x hcycle
    have hperm := finish_ordered_perm priority hg hlen
    have hx : x ∈ nodes := by
      by_contra hn
      obtain ⟨y, hy, _⟩ := Relation.TransGen.head'_iff.mp hcycle
      simp [hg.dependencies_eq_nil x hn] at hy
    exact lt_irrefl _ (idxOf_lt_of_transGen priority hg (hperm.mem_iff.mpr hx) hcycle).2
  · intro hacyclic
    have hall : nodes ⊆ (finish priority nodes dependencies).ordered := by
      intro x hx
      by_contra hunlisted
      obtain ⟨y, _, _, hcycle⟩ := exists_cycle_of_unlisted priority hg hclosed hx hunlisted
      exact hacyclic y hcycle
    have hle := (hg.nodes_nodup.subperm hall).length_le
    have hge := ((finish_ordered_nodup priority hg).subperm
      fun x hx => ((mem_finish_ordered priority hg x).mp hx).1).length_le
    omega

end Finished

end Runs

/-! ## The order of the list -/

section Greedy

variable [LinearOrder π] {priority : κ → π} {nodes : List κ} {dependencies : κ → List κ}

/-- In every place stands a node that does not come again, with its dependencies before it. -/
def Follows (dependencies : κ → List κ) (order : List κ) : Prop :=
  ∀ done x rest, order = done ++ x :: rest → x ∉ done ∧ ∀ y ∈ dependencies x, y ∈ done

/-- In every place stands the least of the nodes that could. -/
def Greedy (priority : κ → π) (nodes : List κ) (dependencies : κ → List κ)
    (order : List κ) : Prop :=
  ∀ done x rest, order = done ++ x :: rest →
    ∀ y ∈ nodes, y ∉ done → (∀ z ∈ dependencies y, z ∈ done) → priority x ≤ priority y

variable {s : TopologicalState κ}

theorem TopologicalState.Sound.follows (hs : s.Sound nodes dependencies) :
    Follows dependencies s.ordered := by
  intro done x rest heq
  have hnodup := (nodup_append.mp hs.nodup).1
  have hx : x ∉ done := fun hmem =>
    disjoint_of_nodup_append (heq ▸ hnodup) hmem mem_cons_self
  refine ⟨hx, fun y hy => ?_⟩
  have hlt := idxOf_lt_of_sublist hnodup (hs.precedes x (by simp [heq]) y hy)
  rw [heq, idxOf_append_of_notMem hx, idxOf_cons_self] at hlt
  by_contra hn
  rw [idxOf_append_of_notMem hn] at hlt
  omega

theorem TopologicalState.Sound.mem_ready (hs : s.Sound nodes dependencies)
    {y : κ} (hy : y ∈ nodes) (hnew : y ∉ s.ordered) (hdeps : ∀ z ∈ dependencies y, z ∈ s.ordered) :
    y ∈ s.ready := by
  have hzero : s.indegree y = 0 := by
    rw [hs.indegree_eq, length_eq_zero_iff, filter_eq_nil_iff]
    simpa using hdeps
  exact (mem_append.mp ((hs.mem_iff y).mpr ⟨hy, hzero⟩)).resolve_left hnew

theorem Greedy.step (hs : s.Sound nodes dependencies)
    (hgreedy : Greedy priority nodes dependencies s.ordered) :
    Greedy priority nodes dependencies
      (step priority (dependantsOf nodes dependencies) s).ordered := by
  unfold Topological.step
  cases hmin : s.ready.argmin priority with
  | none => exact hgreedy
  | some x =>
    intro done a rest heq y hy hnew hdeps
    dsimp only at heq
    rw [emit_ordered] at heq
    rcases append_eq_append_iff.mp heq with ⟨l, rfl, hl⟩ | ⟨l, hordered, hl⟩
    · -- the last place, where the least ready node went
      cases l with
      | nil =>
        obtain ⟨rfl, _⟩ := List.cons.inj hl
        rw [append_nil] at hnew hdeps
        exact le_of_mem_argmin (hs.mem_ready hy hnew hdeps) hmin
      | cons b l =>
        have hlen := congrArg List.length hl
        simp only [length_append, length_cons, length_nil] at hlen
        omega
    · cases l with
      | nil =>
        obtain ⟨rfl, _⟩ := List.cons.inj hl
        rw [append_nil] at hordered
        exact le_of_mem_argmin (hs.mem_ready hy (hordered ▸ hnew) (hordered ▸ hdeps)) hmin
      | cons b l =>
        obtain ⟨rfl, _⟩ := List.cons.inj hl
        exact hgreedy done a l hordered y hy hnew hdeps

theorem Greedy.run (hg : Declared nodes dependencies) (n : ℕ)
    (hs : s.Sound nodes dependencies) (hgreedy : Greedy priority nodes dependencies s.ordered) :
    Greedy priority nodes dependencies
      (run priority (dependantsOf nodes dependencies) n s).ordered := by
  induction n generalizing s with
  | zero => exact hgreedy
  | succ n ih => exact ih (hs.step priority hg) (hgreedy.step hs)

theorem finish_greedy (hg : Declared nodes dependencies) :
    Greedy priority nodes dependencies (finish priority nodes dependencies).ordered := by
  refine Greedy.run hg _ (start_sound hg.nodes_nodup) fun done x rest heq => ?_
  have hlen := congrArg List.length heq
  simp [start] at hlen

omit [DecidableEq κ] in
/-- The greedy order is the least of the orders that follow the dependencies, compared place by
place. -/
theorem Greedy.le (hinj : ∀ x ∈ nodes, ∀ y ∈ nodes, priority x = priority y → x = y)
    {order other : List κ} (hgreedy : Greedy priority nodes dependencies order)
    (hfollows : Follows dependencies other) (horder : order ⊆ nodes) (hother : other ⊆ nodes)
    (hlen : order.length = other.length) : order.map priority ≤ other.map priority := by
  suffices hrun : ∀ done rest rest', order = done ++ rest → other = done ++ rest' →
      rest.map priority ≤ rest'.map priority from hrun [] order other rfl rfl
  intro done rest
  induction rest generalizing done with
  | nil =>
    intro rest' heq heq'
    rw [heq, heq', append_nil, length_append, left_eq_add] at hlen
    rw [eq_nil_of_length_eq_zero hlen]
  | cons x rest ih =>
    intro rest' heq heq'
    cases rest' with
    | nil =>
      rw [heq, heq'] at hlen
      simp at hlen
    | cons y rest' =>
      have hx : x ∈ nodes := horder (by simp [heq])
      have hy : y ∈ nodes := hother (by simp [heq'])
      obtain ⟨hnew, hdeps⟩ := hfollows done y rest' heq'
      rw [map_cons, map_cons]
      rcases (hgreedy done x rest heq y hy hnew hdeps).lt_or_eq with hlt | hsame
      · exact le_of_lt (List.Lex.rel hlt)
      · obtain rfl := hinj x hx y hy hsame
        exact cons_le_cons _ (ih (done ++ [x]) rest' (by simp [heq]) (by simp [heq']))

end Greedy

end LotusCore.Topological
