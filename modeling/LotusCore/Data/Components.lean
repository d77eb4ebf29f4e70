import Mathlib.Algebra.Order.BigOperators.Group.Finset
import Mathlib.Algebra.GroupWithZero.Nat

/-!
# Strongly connected components by two searches

The first search follows the edges depth first and lists nodes as it leaves them. The second takes
the nodes in the opposite order and collects, against the edges, what is not yet in a component.

* `FinishSearch`, `ComponentSearch`: the two searches with their stacks, one round at a time.
* `FinishSearch.Sound`, `Sound.step`: what every round of the first search keeps.
* **`finishOrder_spec`**: what a node reaches is left no later than some node of its component.
* `collectComponents_spec`: the second search collects the classes of mutual reachability.
-/

namespace LotusCore.Components

open List

variable {κ : Type*}

/-! ## Reachability -/

variable (neighbours : κ → List κ)

/-- `y` is reached from `x` along the edges. -/
def Reach : κ → κ → Prop :=
  Relation.ReflTransGen fun x y => y ∈ neighbours x

/-- Two nodes that reach each other. -/
def Mutual (x y : κ) : Prop :=
  Reach neighbours x y ∧ Reach neighbours y x

section Reach

variable {neighbours : κ → List κ} {x y z : κ}

theorem Mutual.refl (x : κ) : Mutual neighbours x x := ⟨.refl, .refl⟩

theorem Mutual.symm (h : Mutual neighbours x y) : Mutual neighbours y x := ⟨h.2, h.1⟩

theorem Mutual.trans (h : Mutual neighbours x y) (h' : Mutual neighbours y z) :
    Mutual neighbours x z :=
  ⟨h.1.trans h'.1, h'.2.trans h.2⟩

theorem Reach.mem_of_closed {p : κ → Prop} (hp : ∀ x, p x → ∀ y ∈ neighbours x, p y)
    (h : Reach neighbours x y) (hx : p x) : p y := by
  induction h with
  | refl => exact hx
  | tail _ hedge ih => exact hp _ ih _ hedge

end Reach

variable [DecidableEq κ]

/-! ## The searches -/

/-- The depth-first search that finds the order in which nodes finish: the frames of its stack are
nodes with the neighbours still to look at. -/
structure FinishSearch (κ : Type*) where
  visited : List κ := []
  finishOrder : List κ := []
  stack : List (κ × List κ) := []

def FinishSearch.step (s : FinishSearch κ) : FinishSearch κ :=
  match s.stack with
  | [] => s
  | (id, []) :: rest => { s with finishOrder := s.finishOrder ++ [id], stack := rest }
  | (id, next :: later) :: rest =>
    if next ∈ s.visited then { s with stack := (id, later) :: rest }
    else
      { s with
        visited := next :: s.visited
        stack := (next, neighbours next) :: (id, later) :: rest }

def FinishSearch.from (rounds : ℕ) (s : FinishSearch κ) (first : κ) : FinishSearch κ :=
  if first ∈ s.visited then s
  else (step neighbours)^[rounds]
    { s with visited := first :: s.visited, stack := [(first, neighbours first)] }

def finishOrder (rounds : ℕ) (order : List κ) : List κ :=
  (order.foldl (FinishSearch.from neighbours rounds) {}).finishOrder

/-- The collection of a component against the edges. -/
structure ComponentSearch (κ : Type*) where
  assigned : List κ := []
  component : List κ := []
  stack : List κ := []

/-- One round of the collection. -/
def ComponentSearch.step (predecessors : κ → List κ) (s : ComponentSearch κ) : ComponentSearch κ :=
  match s.stack with
  | [] => s
  | id :: rest =>
    if id ∈ s.assigned then { s with stack := rest }
    else
      { assigned := id :: s.assigned
        component := id :: s.component
        stack := ((predecessors id).filter (· ∉ id :: s.assigned)).reverse ++ rest }

/-- The component of a node, unless it has one; components of one node are no cycles. -/
def collectComponent (arrange : List κ → List κ) (predecessors : κ → List κ) (rounds : ℕ)
    (found : List κ × List (List κ)) (first : κ) : List κ × List (List κ) :=
  if first ∈ found.1 then found
  else
    let s := (ComponentSearch.step predecessors)^[rounds]
      { assigned := found.1, stack := [first] }
    (s.assigned, if 1 < s.component.length then found.2 ++ [arrange s.component] else found.2)

/-! ## The first search -/

section Finish

variable (neighbours : κ → List κ)

/-- What every round keeps. A frame keeps the neighbours not yet looked at; deeper frames reach
higher ones; and what a finished node reaches is finished no later than a node of its component,
unless such a node is still on the stack. -/
structure FinishSearch.Sound (s : FinishSearch κ) : Prop where
  nodup : (s.finishOrder ++ s.stack.map Prod.fst).Nodup
  visited_iff : ∀ x, x ∈ s.visited ↔ x ∈ s.finishOrder ++ s.stack.map Prod.fst
  finished : ∀ x ∈ s.finishOrder, ∀ y ∈ neighbours x, y ∈ s.visited
  frames : ∀ f ∈ s.stack, f.2 ⊆ neighbours f.1 ∧ ∀ y ∈ neighbours f.1, y ∈ f.2 ∨ y ∈ s.visited
  path : s.stack.Pairwise fun a b => Reach neighbours b.1 a.1
  settled : ∀ x ∈ s.finishOrder, ∀ y, Reach neighbours x y →
    (∃ z ∈ s.finishOrder, Mutual neighbours x z ∧ y ∈ s.finishOrder ∧
      s.finishOrder.idxOf y ≤ s.finishOrder.idxOf z) ∨ ∃ f ∈ s.stack, Mutual neighbours x f.1

variable {neighbours} {s : FinishSearch κ}

/-- A node that is left, with no node of its component below it on the stack, reaches finished nodes
only. -/
theorem FinishSearch.Sound.reach_finished {id : κ} {rest : List (κ × List κ)}
    (hs : s.Sound neighbours) (hstack : s.stack = (id, []) :: rest)
    (hfree : ∀ f ∈ rest, ¬ Mutual neighbours id f.1) {y : κ} (hy : Reach neighbours id y) :
    y ∈ s.finishOrder ++ [id] := by
  have hpath := hs.path
  rw [hstack, pairwise_cons] at hpath
  induction hy with
  | refl => simp
  | @tail z w hz hedge ih =>
    have hvisited : w ∈ s.visited := by
      rcases mem_append.mp ih with hold | hlast
      · exact hs.finished z hold w hedge
      · obtain rfl := mem_singleton.mp hlast
        have hframe := (hs.frames (z, []) (hstack ▸ mem_cons_self)).2 w hedge
        simpa using hframe
    rw [hs.visited_iff, hstack, map_cons, mem_append, mem_cons] at hvisited
    rcases hvisited with hold | rfl | hrest
    · exact mem_append_left _ hold
    · simp
    · obtain ⟨f, hf, rfl⟩ := mem_map.mp hrest
      exact absurd ⟨hz.tail hedge, hpath.1 f hf⟩ (hfree f hf)

theorem FinishSearch.Sound.finish {id : κ} {rest : List (κ × List κ)} (hs : s.Sound neighbours)
    (hstack : s.stack = (id, []) :: rest) :
    FinishSearch.Sound neighbours
      { s with finishOrder := s.finishOrder ++ [id], stack := rest } := by
  have hnodup := hs.nodup
  rw [hstack, map_cons, append_cons] at hnodup
  have hnew : id ∉ s.finishOrder := by
    have hhead := (nodup_append.mp hnodup).1
    exact fun hmem => (disjoint_of_nodup_append hhead) hmem mem_cons_self
  have hframe (f) (hf : f ∈ rest) := hs.frames f (hstack ▸ mem_cons_of_mem _ hf)
  have hpath := hs.path
  rw [hstack, pairwise_cons] at hpath
  -- the component of the node that is left, and what it reaches
  have hlast : ∀ x, Mutual neighbours x id → ∀ y, Reach neighbours x y →
      (∃ z ∈ s.finishOrder ++ [id], Mutual neighbours x z ∧ y ∈ s.finishOrder ++ [id] ∧
        (s.finishOrder ++ [id]).idxOf y ≤ (s.finishOrder ++ [id]).idxOf z) ∨
          ∃ f ∈ rest, Mutual neighbours x f.1 := by
    intro x hx y hy
    by_cases hfree : ∃ f ∈ rest, Mutual neighbours id f.1
    · obtain ⟨f, hf, hmutual⟩ := hfree
      exact .inr ⟨f, hf, hx.trans hmutual⟩
    · push Not at hfree
      have hmem := hs.reach_finished hstack hfree (hx.2.trans hy)
      refine .inl ⟨id, by simp, hx, hmem, ?_⟩
      have hidx : (s.finishOrder ++ [id]).idxOf id = s.finishOrder.length := by
        rw [idxOf_append_of_notMem hnew]
        simp
      have hlt := idxOf_lt_length_iff.mpr hmem
      rw [length_append, length_singleton] at hlt
      omega
  refine ⟨hnodup, fun x => ?_, fun x hx y hy => ?_, hframe, hpath.2, fun x hx y hy => ?_⟩
  · rw [hs.visited_iff, hstack, map_cons, append_cons]
  · rcases mem_append.mp hx with hold | hid
    · exact hs.finished x hold y hy
    · obtain rfl := mem_singleton.mp hid
      simpa using (hs.frames (x, []) (hstack ▸ mem_cons_self)).2 y hy
  · rcases mem_append.mp hx with hold | hid
    · rcases hs.settled x hold y hy with ⟨z, hz, hmutual, hmem, hle⟩ | ⟨f, hf, hmutual⟩
      · refine .inl ⟨z, mem_append_left _ hz, hmutual, mem_append_left _ hmem, ?_⟩
        rwa [idxOf_append_of_mem hmem, idxOf_append_of_mem hz]
      · rw [hstack] at hf
        rcases mem_cons.mp hf with rfl | hf
        · exact hlast x hmutual y hy
        · exact .inr ⟨f, hf, hmutual⟩
    · obtain rfl := mem_singleton.mp hid
      exact hlast x (Mutual.refl x) y hy

theorem FinishSearch.Sound.skip {above rest : List (κ × List κ)} {id next : κ} {later : List κ}
    (hs : s.Sound neighbours) (hstack : s.stack = above ++ (id, next :: later) :: rest)
    (hvisited : next ∈ s.visited) :
    FinishSearch.Sound neighbours { s with stack := above ++ (id, later) :: rest } := by
  have hnames : s.stack.map Prod.fst = (above ++ (id, later) :: rest).map Prod.fst := by
    simp [hstack]
  have hpath := hs.path
  rw [hstack, pairwise_append, pairwise_cons] at hpath
  refine ⟨hnames ▸ hs.nodup, fun x => hnames ▸ hs.visited_iff x, hs.finished, fun f hf => ?_, ?_,
    fun x hx y hy => (hs.settled x hx y hy).imp_right ?_⟩
  · rcases mem_append.mp hf with habove | hf
    · exact hs.frames f (hstack ▸ mem_append_left _ habove)
    rcases mem_cons.mp hf with rfl | hrest
    · obtain ⟨hsub, hlooked⟩ := hs.frames (id, next :: later) (by simp [hstack])
      refine ⟨fun y hy => hsub (mem_cons_of_mem _ hy), fun y hy => ?_⟩
      rcases hlooked y hy with hmem | hmem
      · rcases mem_cons.mp hmem with rfl | hmem
        · exact .inr hvisited
        · exact .inl hmem
      · exact .inr hmem
    · exact hs.frames f (by simp [hstack, hrest])
  · refine pairwise_append.mpr ⟨hpath.1, pairwise_cons.mpr hpath.2.1, fun a ha b hb => ?_⟩
    rcases mem_cons.mp hb with rfl | hb
    · exact hpath.2.2 a ha (id, next :: later) mem_cons_self
    · exact hpath.2.2 a ha b (mem_cons_of_mem _ hb)
  · rintro ⟨f, hf, hmutual⟩
    have hname : f.1 ∈ (above ++ (id, later) :: rest).map Prod.fst :=
      hnames ▸ mem_map_of_mem hf
    obtain ⟨g, hg, hsame⟩ := mem_map.mp hname
    exact ⟨g, hg, hsame ▸ hmutual⟩

/-- A node not yet visited comes onto a stack from whose nodes it is reached. -/
theorem FinishSearch.Sound.push {next : κ} (hs : s.Sound neighbours) (hnew : next ∉ s.visited)
    (hreach : ∀ f ∈ s.stack, Reach neighbours f.1 next) :
    FinishSearch.Sound neighbours
      { s with visited := next :: s.visited, stack := (next, neighbours next) :: s.stack } := by
  have hold : next ∉ s.finishOrder ++ s.stack.map Prod.fst := fun h =>
    hnew ((hs.visited_iff next).mpr h)
  refine ⟨?_, fun x => ?_, fun x hx y hy => mem_cons_of_mem _ (hs.finished x hx y hy),
    fun f hf => ?_, pairwise_cons.mpr ⟨hreach, hs.path⟩, fun x hx y hy => ?_⟩
  · rw [map_cons, nodup_middle]
    exact nodup_cons.mpr ⟨hold, hs.nodup⟩
  · have hvisited := hs.visited_iff x
    simp only [mem_append, mem_cons, map_cons] at hvisited ⊢
    tauto
  · rcases mem_cons.mp hf with rfl | hf
    · exact ⟨List.Subset.refl _, fun y hy => .inl hy⟩
    · obtain ⟨hsub, hrest⟩ := hs.frames f hf
      exact ⟨hsub, fun y hy => (hrest y hy).imp_right (mem_cons_of_mem _)⟩
  · rcases hs.settled x hx y hy with hdone | ⟨f, hf, hmutual⟩
    · exact .inl hdone
    · exact .inr ⟨f, mem_cons_of_mem _ hf, hmutual⟩

theorem FinishSearch.Sound.step (hs : s.Sound neighbours) :
    (s.step neighbours).Sound neighbours := by
  unfold FinishSearch.step
  split
  · exact hs
  · next id rest hstack => exact hs.finish hstack
  · next id next later rest hstack =>
    split_ifs with hvisited
    · have hskip : s.stack = [] ++ (id, next :: later) :: rest := hstack
      exact hs.skip hskip hvisited
    · have hedge : next ∈ neighbours id :=
        (hs.frames (id, next :: later) (hstack ▸ mem_cons_self)).1 mem_cons_self
      have hpath := hs.path
      rw [hstack, pairwise_cons] at hpath
      have hpush := hs.push hvisited (by
        rw [hstack]
        rintro f hf
        rcases mem_cons.mp hf with rfl | hf
        · exact .single hedge
        · exact (hpath.1 f hf).tail hedge)
      rw [hstack] at hpush
      exact hpush.skip (singleton_append).symm mem_cons_self

/-! The rounds: every round spends one unit of what the frames and the nodes not yet visited
hold. -/

variable {nodes : List κ}

variable (neighbours nodes) in
def FinishSearch.rounds (s : FinishSearch κ) : ℕ :=
  (s.stack.map fun f => f.2.length + 1).sum +
    ∑ x ∈ nodes.toFinset \ s.visited.toFinset, ((neighbours x).length + 1)

theorem sum_unvisited (weight : κ → ℕ) {visited : List κ} {x : κ} (hx : x ∈ nodes)
    (hnew : x ∉ visited) :
    weight x + ∑ y ∈ nodes.toFinset \ (x :: visited).toFinset, weight y =
      ∑ y ∈ nodes.toFinset \ visited.toFinset, weight y := by
  have hmem : x ∈ nodes.toFinset \ visited.toFinset := by simp [hx, hnew]
  rw [toFinset_cons, Finset.sdiff_insert, Finset.add_sum_erase _ _ hmem]

theorem FinishSearch.rounds_step (hclosed : ∀ x ∈ nodes, neighbours x ⊆ nodes)
    (hs : s.Sound neighbours) (hwithin : s.visited ⊆ nodes) (hstack : s.stack ≠ []) :
    (s.step neighbours).visited ⊆ nodes ∧
      (s.step neighbours).rounds neighbours nodes + 1 = s.rounds neighbours nodes := by
  unfold FinishSearch.step
  split
  · next hnil => exact absurd hnil hstack
  · next id rest hframe =>
    refine ⟨hwithin, ?_⟩
    simp only [rounds, hframe, map_cons, sum_cons, length_nil]
    omega
  · next id next later rest hframe =>
    split_ifs with hvisited
    · refine ⟨hwithin, ?_⟩
      simp only [rounds, hframe, map_cons, sum_cons, length_cons]
      omega
    · have hid : id ∈ nodes := hwithin ((hs.visited_iff id).mpr (by simp [hframe]))
      have hnext : next ∈ nodes := hclosed id hid
        ((hs.frames (id, next :: later) (hframe ▸ mem_cons_self)).1 mem_cons_self)
      refine ⟨cons_subset.mpr ⟨hnext, hwithin⟩, ?_⟩
      have hsum := sum_unvisited (fun x => (neighbours x).length + 1) hnext hvisited
      simp only [rounds, hframe, map_cons, sum_cons, length_cons]
      omega

theorem FinishSearch.step_of_nil (hstack : s.stack = []) : s.step neighbours = s := by
  simp [step, hstack]

theorem FinishSearch.visited_subset_step (s : FinishSearch κ) :
    s.visited ⊆ (s.step neighbours).visited := by
  unfold FinishSearch.step
  split
  · exact List.Subset.refl _
  · exact List.Subset.refl _
  · split_ifs
    · exact List.Subset.refl _
    · exact subset_cons_self _ _

/-- Enough rounds empty the stack, keep the invariant and forget no visited node. -/
theorem FinishSearch.Sound.iterate (hclosed : ∀ x ∈ nodes, neighbours x ⊆ nodes) (n : ℕ)
    (s : FinishSearch κ) (hs : s.Sound neighbours) (hwithin : s.visited ⊆ nodes)
    (hn : s.rounds neighbours nodes ≤ n) :
    let t := (FinishSearch.step neighbours)^[n] s
    t.Sound neighbours ∧ t.visited ⊆ nodes ∧ t.stack = [] ∧ s.visited ⊆ t.visited := by
  induction n generalizing s with
  | zero =>
    refine ⟨hs, hwithin, ?_, List.Subset.refl _⟩
    cases hstack : s.stack with
    | nil => exact hstack
    | cons f rest =>
      simp only [rounds, hstack, map_cons, sum_cons] at hn
      omega
  | succ n ih =>
    rw [Function.iterate_succ_apply]
    by_cases hstack : s.stack = []
    · rw [step_of_nil hstack, Function.iterate_fixed (step_of_nil hstack)]
      exact ⟨hs, hwithin, hstack, List.Subset.refl _⟩
    · obtain ⟨hwithin', hrounds⟩ := rounds_step hclosed hs hwithin hstack
      obtain ⟨hsound, hin, hdone, hkept⟩ := ih _ hs.step hwithin' (by omega)
      exact ⟨hsound, hin, hdone, List.Subset.trans (visited_subset_step s) hkept⟩

/-- A search from a node, on an empty stack, ends with an empty stack and the node visited. -/
theorem FinishSearch.Sound.from (hnodes : nodes.Nodup) (hclosed : ∀ x ∈ nodes, neighbours x ⊆ nodes)
    {first : κ} (hfirst : first ∈ nodes) (hs : s.Sound neighbours) (hwithin : s.visited ⊆ nodes)
    (hstack : s.stack = []) :
    let t := s.from neighbours (nodes.map fun x => (neighbours x).length + 1).sum first
    t.Sound neighbours ∧ t.visited ⊆ nodes ∧ t.stack = [] ∧ first :: s.visited ⊆ t.visited := by
  unfold FinishSearch.from
  split_ifs with hvisited
  · exact ⟨hs, hwithin, hstack, cons_subset.mpr ⟨hvisited, List.Subset.refl _⟩⟩
  · have hpush := hs.push hvisited (by simp [hstack])
    rw [hstack] at hpush
    refine hpush.iterate hclosed _ _ (cons_subset.mpr ⟨hfirst, hwithin⟩) ?_
    have hsum := sum_unvisited (fun x => (neighbours x).length + 1) hfirst hvisited
    have hall : ∑ x ∈ nodes.toFinset \ s.visited.toFinset, ((neighbours x).length + 1) ≤
        ∑ x ∈ nodes.toFinset, ((neighbours x).length + 1) :=
      Finset.sum_le_sum_of_subset Finset.sdiff_subset
    rw [sum_toFinset _ hnodes] at hall
    simp only [rounds, map_cons, map_nil, sum_cons, sum_nil]
    omega

theorem FinishSearch.Sound.foldl_from (hnodes : nodes.Nodup)
    (hclosed : ∀ x ∈ nodes, neighbours x ⊆ nodes) (order : List κ) (horder : order ⊆ nodes)
    (s : FinishSearch κ) (hs : s.Sound neighbours) (hwithin : s.visited ⊆ nodes)
    (hstack : s.stack = []) :
    let t := order.foldl
      (FinishSearch.from neighbours (nodes.map fun x => (neighbours x).length + 1).sum) s
    t.Sound neighbours ∧ t.visited ⊆ nodes ∧ t.stack = [] ∧ order ++ s.visited ⊆ t.visited := by
  induction order generalizing s with
  | nil => exact ⟨hs, hwithin, hstack, List.Subset.refl _⟩
  | cons first order ih =>
    obtain ⟨hfirst, hrest⟩ := cons_subset.mp horder
    obtain ⟨hsound, hin, hempty, hseen⟩ := hs.from hnodes hclosed hfirst hwithin hstack
    obtain ⟨hsound', hin', hempty', hseen'⟩ := ih hrest _ hsound hin hempty
    refine ⟨hsound', hin', hempty', fun x hx => hseen' ?_⟩
    rw [cons_append, ← perm_middle.mem_iff, mem_append] at hx
    exact mem_append.mpr (hx.imp_right fun h => hseen h)

/-- The first search lists every node once, and what a node reaches no later than some node of its
component. -/
theorem finishOrder_spec (hnodes : nodes.Nodup) (hclosed : ∀ x ∈ nodes, neighbours x ⊆ nodes)
    (order : List κ) (horder : ∀ x, x ∈ order ↔ x ∈ nodes) :
    let l := finishOrder neighbours (nodes.map fun x => (neighbours x).length + 1).sum order
    l.Nodup ∧ (∀ x, x ∈ l ↔ x ∈ nodes) ∧ ∀ x ∈ l, ∀ y, Reach neighbours x y →
      ∃ z ∈ l, Mutual neighbours x z ∧ l.idxOf y ≤ l.idxOf z := by
  have hstart : FinishSearch.Sound neighbours ({} : FinishSearch κ) := by
    constructor <;> simp
  obtain ⟨hs, hwithin, hstack, hseen⟩ := hstart.foldl_from hnodes hclosed order
    (fun x hx => (horder x).mp hx) _ (nil_subset _) rfl
  have hvisited := hs.visited_iff
  have hnodup := hs.nodup
  have hsettled := hs.settled
  simp only [hstack, map_nil, append_nil] at hvisited hnodup hseen
  refine ⟨hnodup, fun x => ⟨fun hx => hwithin ((hvisited x).mpr hx), fun hx => ?_⟩,
    fun x hx y hy => ?_⟩
  · exact (hvisited x).mp (hseen ((horder x).mpr hx))
  · rcases hsettled x hx y hy with ⟨z, hz, hmutual, _, hle⟩ | ⟨f, hf, _⟩
    · exact ⟨z, hz, hmutual, hle⟩
    · rw [hstack] at hf
      exact absurd hf not_mem_nil

end Finish

/-! ## The second search -/

section Collect

variable {neighbours predecessors : κ → List κ} {nodes before : List κ} {first : κ}

variable (neighbours predecessors nodes before first) in
/-- What every round of a collection keeps: the component grows outside what was assigned before,
with nodes that reach the first one, and the predecessors of its nodes are assigned or wait. -/
structure ComponentSearch.Collects (s : ComponentSearch κ) : Prop where
  assigned_iff : ∀ x, x ∈ s.assigned ↔ x ∈ before ∨ x ∈ s.component
  nodup : s.component.Nodup
  fresh : ∀ x ∈ s.component, x ∉ before
  reaches : ∀ x ∈ s.component ++ s.stack, x ∈ nodes ∧ Reach neighbours x first
  closed : ∀ x ∈ s.component, ∀ y ∈ predecessors x, y ∈ s.assigned ∨ y ∈ s.stack
  first_mem : first ∈ s.component ++ s.stack

variable {s : ComponentSearch κ}

theorem ComponentSearch.Collects.step
    (hpred : ∀ x ∈ nodes, ∀ y, y ∈ predecessors x ↔ y ∈ nodes ∧ x ∈ neighbours y)
    (hfirst : first ∉ before)
    (hs : s.Collects neighbours predecessors nodes before first) :
    (s.step predecessors).Collects neighbours predecessors nodes before first := by
  unfold ComponentSearch.step
  split
  · exact hs
  · next id rest hstack =>
    have hid := hs.reaches id (by simp [hstack])
    split_ifs with hassigned
    · refine ⟨hs.assigned_iff, hs.nodup, hs.fresh, fun x hx => hs.reaches x ?_, fun x hx y hy => ?_,
        ?_⟩
      · rw [hstack]
        simp only [mem_append, mem_cons] at hx ⊢
        tauto
      · have hclosed := hs.closed x hx y hy
        rw [hstack, mem_cons] at hclosed
        rcases hclosed with h | rfl | h
        · exact .inl h
        · exact .inl hassigned
        · exact .inr h
      · have hmem := hs.first_mem
        rw [hstack, mem_append, mem_cons] at hmem
        rw [mem_append]
        rcases hmem with h | rfl | h
        · exact .inl h
        · exact .inl (((hs.assigned_iff _).mp hassigned).resolve_left hfirst)
        · exact .inr h
    · have hnew := (hs.assigned_iff id).not.mp hassigned
      push Not at hnew
      refine ⟨fun x => ?_, nodup_cons.mpr ⟨hnew.2, hs.nodup⟩, fun x hx => ?_, fun x hx => ?_,
        fun x hx y hy => ?_, ?_⟩
      · have hiff := hs.assigned_iff x
        simp only [mem_cons]
        tauto
      · rcases mem_cons.mp hx with rfl | hx
        · exact hnew.1
        · exact hs.fresh x hx
      · simp only [mem_append, mem_cons, mem_reverse, mem_filter] at hx
        rcases hx with (rfl | hx) | ⟨hx, _⟩ | hx
        · exact hid
        · exact hs.reaches x (mem_append_left _ hx)
        · obtain ⟨hnode, hedge⟩ := (hpred id hid.1 x).mp hx
          exact ⟨hnode, .head hedge hid.2⟩
        · exact hs.reaches x (by simp [hstack, hx])
      · simp only [mem_append, mem_reverse, mem_filter, decide_eq_true_eq]
        rcases mem_cons.mp hx with rfl | hx
        · by_cases hy' : y ∈ x :: s.assigned
          · exact .inl hy'
          · exact .inr (.inl ⟨hy, hy'⟩)
        · have hclosed := hs.closed x hx y hy
          rw [hstack, mem_cons] at hclosed
          rcases hclosed with h | rfl | h
          · exact .inl (mem_cons_of_mem _ h)
          · exact .inl mem_cons_self
          · exact .inr (.inr h)
      · have hmem := hs.first_mem
        rw [hstack] at hmem
        simp only [mem_append, mem_cons] at hmem ⊢
        tauto

variable (predecessors nodes) in
def ComponentSearch.rounds (s : ComponentSearch κ) : ℕ :=
  s.stack.length + ∑ x ∈ nodes.toFinset \ s.assigned.toFinset, (predecessors x).length

theorem ComponentSearch.rounds_step (hs : s.Collects neighbours predecessors nodes before first)
    (hstack : s.stack ≠ []) :
    (s.step predecessors).rounds predecessors nodes < s.rounds predecessors nodes := by
  unfold ComponentSearch.step
  split
  · next hnil => exact absurd hnil hstack
  · next id rest hframe =>
    split_ifs with hassigned
    · simp [rounds, hframe]
    · have hsum := sum_unvisited (fun x => (predecessors x).length)
        (hs.reaches id (by simp [hframe])).1 hassigned
      have hle := length_filter_le (fun y => decide (y ∉ id :: s.assigned)) (predecessors id)
      simp only [rounds, hframe, length_append, length_reverse, length_cons]
      omega

theorem ComponentSearch.Collects.iterate
    (hpred : ∀ x ∈ nodes, ∀ y, y ∈ predecessors x ↔ y ∈ nodes ∧ x ∈ neighbours y)
    (hfirst : first ∉ before) (n : ℕ) (s : ComponentSearch κ)
    (hs : s.Collects neighbours predecessors nodes before first)
    (hn : s.rounds predecessors nodes ≤ n) :
    let t := (ComponentSearch.step predecessors)^[n] s
    t.Collects neighbours predecessors nodes before first ∧ t.stack = [] := by
  induction n generalizing s with
  | zero =>
    have hempty : s.stack.length = 0 := by
      simp only [rounds] at hn
      omega
    exact ⟨hs, eq_nil_of_length_eq_zero hempty⟩
  | succ n ih =>
    rw [Function.iterate_succ_apply]
    by_cases hstack : s.stack = []
    · have hfixed : s.step predecessors = s := by simp [ComponentSearch.step, hstack]
      rw [hfixed, Function.iterate_fixed hfixed]
      exact ⟨hs, hstack⟩
    · have hlt := rounds_step hs hstack
      exact ih _ (hs.step hpred hfirst) (by omega)

omit [DecidableEq κ] in
/-- With nothing left to do, the component is the class of the first node, as long as what reaches
the first node and is not assigned is in its class. -/
theorem ComponentSearch.Collects.mem_component_iff (hclosed : ∀ x ∈ nodes, neighbours x ⊆ nodes)
    (hpred : ∀ x ∈ nodes, ∀ y, y ∈ predecessors x ↔ y ∈ nodes ∧ x ∈ neighbours y)
    (hs : s.Collects neighbours predecessors nodes before first) (hstack : s.stack = [])
    (hclass : ∀ x ∈ nodes, x ∉ before → Reach neighbours x first → Mutual neighbours first x)
    (hother : ∀ x ∈ before, ¬ Mutual neighbours first x) (x : κ) :
    x ∈ s.component ↔ Mutual neighbours first x := by
  have hreaches := hs.reaches
  have hmem := hs.first_mem
  simp only [hstack, append_nil] at hreaches hmem
  refine ⟨fun hx => hclass x (hreaches x hx).1 (hs.fresh x hx) (hreaches x hx).2, fun hx => ?_⟩
  obtain ⟨hto, hback⟩ := hx
  -- along a path from a node of the class, whose nodes are all of the class
  induction hback using Relation.ReflTransGen.head_induction_on with
  | refl => exact hmem
  | @head a b hedge hrest ih =>
    have hb := ih (hto.tail hedge)
    have hnode : a ∈ nodes := hto.mem_of_closed (p := (· ∈ nodes)) hclosed (hreaches first hmem).1
    have hin := hs.closed b hb a ((hpred b (hreaches b hb).1 a).mpr ⟨hnode, hedge⟩)
    rw [hstack, hs.assigned_iff] at hin
    rcases hin with (hin | hin) | hin
    · exact absurd ⟨hto, .head hedge hrest⟩ (hother a hin)
    · exact hin
    · exact absurd hin not_mem_nil

variable (neighbours nodes) in
/-- What was collected: classes of mutual reachability, which share no node. -/
structure Gathered (arrange : List κ → List κ) (found : List κ × List (List κ))
    (parts : List (List κ)) : Prop where
  cyclic : found.2 = (parts.filter (1 < ·.length)).map arrange
  assigned_iff : ∀ x, x ∈ found.1 ↔ x ∈ parts.flatten
  nodup : parts.flatten.Nodup
  classes : ∀ part ∈ parts, ∃ x ∈ part, x ∈ nodes ∧ ∀ y, y ∈ part ↔ Mutual neighbours x y

variable {arrange : List κ → List κ} {found : List κ × List (List κ)} {parts : List (List κ)}

omit [DecidableEq κ] in
theorem Gathered.mem_of_mutual (hg : Gathered neighbours nodes arrange found parts) {x y : κ}
    (hx : x ∈ found.1) (hxy : Mutual neighbours x y) : y ∈ found.1 := by
  obtain ⟨part, hpart, hmem⟩ := mem_flatten.mp ((hg.assigned_iff x).mp hx)
  obtain ⟨z, _, _, hclass⟩ := hg.classes part hpart
  have hy : y ∈ part := (hclass y).mpr (((hclass x).mp hmem).trans hxy)
  exact (hg.assigned_iff y).mpr (mem_flatten.mpr ⟨part, hpart, hy⟩)

theorem Gathered.collect (hnodes : nodes.Nodup)
    (hclosed : ∀ x ∈ nodes, neighbours x ⊆ nodes)
    (hpred : ∀ x ∈ nodes, ∀ y, y ∈ predecessors x ↔ y ∈ nodes ∧ x ∈ neighbours y)
    (hg : Gathered neighbours nodes arrange found parts) (hfirst : first ∈ nodes)
    (hclass : ∀ x ∈ nodes, x ∉ found.1 → Reach neighbours x first → Mutual neighbours first x) :
    let t := collectComponent arrange predecessors
      ((nodes.map fun x => (predecessors x).length).sum + 1) found first
    ∃ parts', Gathered neighbours nodes arrange t parts' ∧ first :: found.1 ⊆ t.1 := by
  unfold collectComponent
  split_ifs with hassigned
  · exact ⟨parts, hg, cons_subset.mpr ⟨hassigned, List.Subset.refl _⟩⟩
  have hstart : ComponentSearch.Collects neighbours predecessors nodes found.1 first
      { assigned := found.1, stack := [first] } := by
    refine ⟨by simp, nodup_nil, by simp, fun x hx => ?_, by simp, by simp⟩
    obtain rfl : x = first := by simpa using hx
    exact ⟨hfirst, .refl⟩
  have hrounds : ComponentSearch.rounds predecessors nodes
      { assigned := found.1, stack := [first] } ≤
        (nodes.map fun x => (predecessors x).length).sum + 1 := by
    have hall : ∑ x ∈ nodes.toFinset \ found.1.toFinset, (predecessors x).length ≤
        ∑ x ∈ nodes.toFinset, (predecessors x).length :=
      Finset.sum_le_sum_of_subset Finset.sdiff_subset
    rw [sum_toFinset _ hnodes] at hall
    simp only [ComponentSearch.rounds, length_singleton]
    omega
  obtain ⟨hcollects, hstack⟩ := hstart.iterate hpred hassigned _ _ hrounds
  have hother : ∀ x ∈ found.1, ¬ Mutual neighbours first x := fun x hx hmutual =>
    hassigned (hg.mem_of_mutual hx hmutual.symm)
  have hmem := hcollects.mem_component_iff hclosed hpred hstack hclass hother
  generalize (ComponentSearch.step predecessors)^[_] _ = s at hcollects hstack hmem
  refine ⟨parts ++ [s.component], ⟨?_, fun x => ?_, ?_, fun part hpart => ?_⟩, ?_⟩
  · dsimp only
    rw [filter_append, map_append, ← hg.cyclic]
    by_cases hlength : 1 < s.component.length <;> simp [hlength]
  · dsimp only
    rw [hcollects.assigned_iff, hg.assigned_iff]
    simp
  · rw [flatten_append, flatten_singleton]
    refine hg.nodup.append hcollects.nodup fun x hx hx' => ?_
    exact hcollects.fresh x hx' ((hg.assigned_iff x).mpr hx)
  · rcases mem_append.mp hpart with hpart | hpart
    · exact hg.classes part hpart
    · obtain rfl := mem_singleton.mp hpart
      exact ⟨first, (hmem first).mpr (Mutual.refl first), hfirst, hmem⟩
  · refine cons_subset.mpr ⟨?_, fun x hx => ?_⟩
    · exact (hcollects.assigned_iff first).mpr (.inr ((hmem first).mpr (Mutual.refl first)))
    · exact (hcollects.assigned_iff x).mpr (.inl hx)

variable (arrange) in
/-- The second search, over the nodes in an order in which what a node reaches comes no earlier
than some node of its class, collects the classes. -/
theorem collectComponents_spec (hnodes : nodes.Nodup) (hclosed : ∀ x ∈ nodes, neighbours x ⊆ nodes)
    (hpred : ∀ x ∈ nodes, ∀ y, y ∈ predecessors x ↔ y ∈ nodes ∧ x ∈ neighbours y)
    {order : List κ} (hnodup : order.Nodup) (horder : ∀ x, x ∈ order ↔ x ∈ nodes)
    (hlate : ∀ x ∈ order, ∀ y, Reach neighbours x y →
      ∃ z ∈ order, Mutual neighbours x z ∧ order.idxOf y ≤ order.idxOf z) :
    ∃ parts, Gathered neighbours nodes arrange
        (order.reverse.foldl (collectComponent arrange predecessors
          ((nodes.map fun x => (predecessors x).length).sum + 1)) ([], [])) parts ∧
      ∀ x, x ∈ parts.flatten ↔ x ∈ nodes := by
  -- over the part of the order still to come: what comes later in it is assigned
  suffices hrun : ∀ later : List κ, ∀ rest : List κ, order = rest ++ later →
      ∀ found parts, Gathered neighbours nodes arrange found parts → later ⊆ found.1 →
      let t := rest.reverse.foldl (collectComponent arrange predecessors
        ((nodes.map fun x => (predecessors x).length).sum + 1)) found
      ∃ parts', Gathered neighbours nodes arrange t parts' ∧ order ⊆ t.1 by
    have hempty : Gathered neighbours nodes arrange ([], []) [] := by
      constructor <;> simp
    obtain ⟨parts, hg, hall⟩ := hrun [] order (append_nil _).symm _ _ hempty (nil_subset _)
    refine ⟨parts, hg, fun x => ⟨fun hx => ?_, fun hx => ?_⟩⟩
    · obtain ⟨part, hpart, hmem⟩ := mem_flatten.mp hx
      obtain ⟨z, _, hz, hclass⟩ := hg.classes part hpart
      exact ((hclass x).mp hmem).1.mem_of_closed (p := (· ∈ nodes)) hclosed hz
    · exact (hg.assigned_iff x).mp (hall ((horder x).mpr hx))
  intro later rest
  induction rest using List.reverseRecOn generalizing later with
  | nil =>
    intro heq found parts hg hlater
    rw [nil_append] at heq
    exact ⟨parts, hg, heq ▸ hlater⟩
  | append_singleton rest first ih =>
    intro heq found parts hg hlater
    rw [append_assoc, singleton_append] at heq
    have hfirst : first ∈ nodes := (horder first).mp (by simp [heq])
    have hclass : ∀ x ∈ nodes, x ∉ found.1 → Reach neighbours x first →
        Mutual neighbours first x := by
      intro x hx hnew hreach
      obtain ⟨z, hz, hmutual, hle⟩ := hlate x ((horder x).mpr hx) first hreach
      have hzfirst : z = first := by
        by_contra hne
        have hrest : first ∉ rest := fun hmem =>
          disjoint_of_nodup_append (heq ▸ hnodup) hmem mem_cons_self
        rw [heq] at hz hle
        rcases mem_append.mp hz with hmem | hmem
        · rw [idxOf_append_of_notMem hrest, idxOf_cons_self,
            idxOf_append_of_mem hmem] at hle
          have hlt := idxOf_lt_length_iff.mpr hmem
          omega
        · have hassigned := hlater ((mem_cons.mp hmem).resolve_left hne)
          exact hnew (hg.mem_of_mutual hassigned hmutual.symm)
      exact hzfirst ▸ hmutual.symm
    obtain ⟨parts', hg', hsub⟩ := hg.collect hnodes hclosed hpred hfirst hclass
    obtain ⟨hmem, hkept⟩ := cons_subset.mp hsub
    rw [reverse_append, reverse_singleton, singleton_append, foldl_cons]
    exact ih (first :: later) heq _ parts' hg'
      (cons_subset.mpr ⟨hmem, List.Subset.trans hlater hkept⟩)

end Collect

end LotusCore.Components
