import ContestManagement.Grading.SubtaskDag
import ContestManagement.Lib.GreedyOrder
import Mathlib.Data.Set.Finite.Basic

/-!
# Which dependencies are accepted, and the order of the subtasks

`topological_order` gives the least order of the subtasks in which each one comes after its
dependencies, or names those that lie on a cycle or depend on one.
-/

namespace ContestManagement
namespace Grading

open Lib

variable {dependencies : List (List Nat)}

/-- The dependencies of subtasks are subtasks. -/
def InRange (dependencies : List (List Nat)) : Prop :=
  ∀ index, ∀ number ∈ dependenciesOf dependencies index, number < dependencies.length

/-- No subtask depends on itself, directly or not. -/
def Acyclic (dependencies : List (List Nat)) : Prop :=
  ∀ index, ¬Relation.TransGen (Reads (dependenciesOf dependencies)) index index

theorem Acyclic.not_reachesCycle (h : Acyclic dependencies) (index : Nat) :
    ¬ReachesCycle (dependenciesOf dependencies) index := by
  rintro ⟨c, -, hcycle⟩
  exact h c hcycle

namespace TopologicalState

variable {s : TopologicalState}

/-! ## The inner loop -/

theorem order_foldl_visit (dependents : List Nat) (s : TopologicalState) :
    (dependents.foldl visit s).order = s.order := by
  induction dependents generalizing s with
  | nil => rfl
  | cons dependent rest ih => exact ih (s.visit dependent)

theorem remaining_foldl_visit {dependents : List Nat} {index : Nat} (h : index ∉ dependents)
    (s : TopologicalState) : (dependents.foldl visit s).remaining index = s.remaining index := by
  induction dependents generalizing s with
  | nil => rfl
  | cons dependent rest ih =>
      rw [List.mem_cons, not_or] at h
      rw [List.foldl_cons, ih h.2]
      exact Function.update_of_ne h.1 _ _

theorem ready_foldl_visit {index : Nat} (dependents : List Nat) {s : TopologicalState}
    (h : index ∈ s.ready) : index ∈ (dependents.foldl visit s).ready := by
  induction dependents generalizing s with
  | nil => exact h
  | cons dependent rest ih =>
      apply ih
      unfold visit
      dsimp only
      split
      · exact List.mem_append_left _ h
      · exact h

/-- The inner loop finds every dependent that has nothing left to wait for. -/
theorem free_foldl_visit {dependents : List Nat} {index : Nat} (hmem : index ∈ dependents)
    {s : TopologicalState} (hfree : (dependents.foldl visit s).remaining index = 0) :
    index ∈ (dependents.foldl visit s).ready := by
  induction dependents generalizing s with
  | nil => cases hmem
  | cons dependent rest ih =>
      rw [List.foldl_cons] at hfree ⊢
      by_cases hrest : index ∈ rest
      · exact ih hrest hfree
      · -- This is the last visit, so that what it leaves is what is left in the end.
        obtain rfl : index = dependent := by simpa [hrest] using hmem
        rw [remaining_foldl_visit hrest] at hfree
        apply ready_foldl_visit
        have hzero : Function.update s.remaining index (s.remaining index - 1) index = 0 := hfree
        show index ∈ if Function.update s.remaining index (s.remaining index - 1) index = 0
          then s.ready ++ [index] else s.ready
        rw [if_pos hzero]
        simp

/-! ## The loop -/

/-- The ready subtasks are all those whose turn it could be, and the least one went first. -/
structure Exact (dependencies : List (List Nat)) (s : TopologicalState) : Prop where
  sound : s.Sound dependencies
  greedy : Greedy (dependenciesOf dependencies) (List.range dependencies.length) s.order
  complete : ∀ index < dependencies.length, index ∉ s.order → s.remaining index = 0 →
    index ∈ s.ready

/-- A subtask waits for nothing when its dependencies are in the order. -/
theorem Sound.remaining_eq_zero_iff (h : s.Sound dependencies) {index : Nat} :
    s.remaining index = 0 ↔ ∀ number ∈ dependenciesOf dependencies index, number ∈ s.order := by
  rw [h.counted index, List.length_eq_zero_iff, List.filter_eq_nil_iff]
  simp

theorem exact_start (dependencies : List (List Nat)) : (start dependencies).Exact dependencies := by
  refine ⟨sound_start dependencies, .nil, ?_⟩
  intro index hindex _ hzero
  rw [start, List.mem_filter, List.mem_range]
  exact ⟨hindex, by simpa [start] using hzero⟩

theorem Exact.iterate (h : s.Exact dependencies) {current : Nat} {rest : List Nat}
    (hpop : heappop s.ready = some (current, rest)) :
    ((dependentsOf dependencies current).foldl visit
      { s with ready := rest, order := s.order ++ [current] }).Exact dependencies := by
  have hpop' := hpop
  rw [heappop, Option.map_eq_some_iff] at hpop'
  obtain ⟨least, hleast, heq⟩ := hpop'
  rw [Prod.mk.injEq] at heq
  obtain ⟨rfl, rfl⟩ := heq
  refine ⟨h.sound.iterate hpop, ?_, ?_⟩
  · rw [order_foldl_visit]
    refine h.greedy.concat fun x hx hfresh hdone => ?_
    have hready : x ∈ s.ready :=
      h.complete x (List.mem_range.1 hx) hfresh (h.sound.remaining_eq_zero_iff.2 hdone)
    exact (List.min?_eq_some_iff.1 hleast).2 x hready
  · intro index hindex hfresh hzero
    rw [order_foldl_visit, List.mem_append, List.mem_singleton, not_or] at hfresh
    by_cases hmem : index ∈ dependentsOf dependencies least
    · exact free_foldl_visit hmem hzero
    · rw [remaining_foldl_visit hmem] at hzero
      apply ready_foldl_visit
      exact (List.mem_erase_of_ne hfresh.2).2 (h.complete index hindex hfresh.1 hzero)

/-- The loop ends when no subtask is ready; the fuel is enough. -/
theorem Exact.loop (h : s.Exact dependencies) (fuel : Nat)
    (hfuel : dependencies.length ≤ fuel + s.order.length) :
    (TopologicalState.loop dependencies fuel s).Exact dependencies ∧
      (TopologicalState.loop dependencies fuel s).ready = [] := by
  induction fuel generalizing s with
  | zero =>
      refine ⟨h, List.eq_nil_iff_forall_not_mem.2 fun index hindex => ?_⟩
      -- All subtasks are in the order.
      obtain ⟨hfresh, hlt⟩ := h.sound.fresh index hindex
      have hperm := h.sound.order_perm (by omega)
      exact hfresh (hperm.mem_iff.2 (List.mem_range.2 hlt))
  | succ fuel ih =>
      rw [TopologicalState.loop]
      cases hpop : heappop s.ready with
      | none =>
          refine ⟨h, ?_⟩
          rw [heappop, Option.map_eq_none_iff] at hpop
          exact List.min?_eq_none_iff.1 hpop
      | some popped =>
          obtain ⟨current, rest⟩ := popped
          refine ih (h.iterate hpop) ?_
          rw [order_foldl_visit, List.length_append, List.length_singleton]
          omega

/-- What the loop leaves out are the subtasks that reach a cycle. -/
theorem Exact.not_mem_order_iff (h : s.Exact dependencies) (hready : s.ready = [])
    (hrange : InRange dependencies) {index : Nat} (hindex : index < dependencies.length) :
    index ∉ s.order ↔ ReachesCycle (dependenciesOf dependencies) index := by
  constructor
  · intro hfresh
    have hfinite : {i | i < dependencies.length ∧ i ∉ s.order}.Finite :=
      (Finset.range dependencies.length).finite_toSet.subset fun i hi => by simpa using hi.1
    refine reachesCycle_of_closed hfinite ?_ (show index ∈ {i | _ ∧ _} from ⟨hindex, hfresh⟩)
    rintro x ⟨hx, hxfresh⟩
    by_contra hnone
    have hdone : ∀ number ∈ dependenciesOf dependencies x, number ∈ s.order := by
      intro number hnumber
      by_contra hleft
      exact hnone ⟨number, ⟨hrange x number hnumber, hleft⟩, hnumber⟩
    have hmem := h.complete x hx hxfresh (h.sound.remaining_eq_zero_iff.2 hdone)
    rw [hready] at hmem
    cases hmem
  · intro hcycle hmem
    exact h.sound.topological.not_reachesCycle index hmem hcycle

end TopologicalState

/-! ## The order -/

/-- The loop variables after the loop. -/
def finalState (dependencies : List (List Nat)) : TopologicalState :=
  .loop dependencies dependencies.length (.start dependencies)

theorem finalState_exact (dependencies : List (List Nat)) :
    (finalState dependencies).Exact dependencies ∧ (finalState dependencies).ready = [] :=
  (TopologicalState.exact_start dependencies).loop dependencies.length (by omega)

theorem topologicalOrder_eq (dependencies : List (List Nat)) : topologicalOrder dependencies =
    if (finalState dependencies).order.length ≠ dependencies.length then
      .error (.valueError ("The subtask dependencies form a cycle; subtasks in it or " ++
        "depending on it: " ++ joinNumbers ((List.range dependencies.length).filter fun index =>
          0 < (finalState dependencies).remaining index) ++ "."))
    else .ok (finalState dependencies).order := rfl

theorem length_order_eq_iff (hrange : InRange dependencies) :
    (finalState dependencies).order.length = dependencies.length ↔ Acyclic dependencies := by
  obtain ⟨hexact, hready⟩ := finalState_exact dependencies
  constructor
  · intro hlength index hcycle
    have hperm := hexact.sound.order_perm hlength.ge
    -- A subtask on a cycle has a dependency, so that it is a subtask.
    have hindex : index < dependencies.length := by
      obtain ⟨before, -, hlast⟩ := Relation.TransGen.tail'_iff.1 hcycle
      exact hrange before index hlast
    exact hexact.sound.topological.not_reachesCycle index
      (hperm.mem_iff.2 (List.mem_range.2 hindex)) ⟨index, .refl, hcycle⟩
  · intro hacyclic
    have hsub : List.range dependencies.length ⊆ (finalState dependencies).order := by
      intro index hindex
      by_contra hfresh
      exact hacyclic.not_reachesCycle index
        ((hexact.not_mem_order_iff hready hrange (List.mem_range.1 hindex)).1 hfresh)
    have hle := (List.subperm_of_subset List.nodup_range hsub).length_le
    rw [List.length_range] at hle
    exact le_antisymm hexact.sound.length_order_le hle

/-- An order in which each subtask comes once, after its dependencies. -/
structure OrderOf (dependencies : List (List Nat)) (order : List Nat) : Prop where
  perm : order.Perm (List.range dependencies.length)
  topological : Topological (dependenciesOf dependencies) order

/-- Without cycles the order is the least one. -/
theorem topologicalOrder_of_acyclic (hrange : InRange dependencies)
    (hacyclic : Acyclic dependencies) :
    ∃ order, topologicalOrder dependencies = .ok order ∧ OrderOf dependencies order ∧
      ∀ other, OrderOf dependencies other → order = other ∨ List.Lex (· < ·) order other := by
  obtain ⟨hexact, -⟩ := finalState_exact dependencies
  have hlength := (length_order_eq_iff hrange).2 hacyclic
  have hperm := hexact.sound.order_perm hlength.ge
  refine ⟨(finalState dependencies).order, ?_, ⟨hperm, hexact.sound.topological⟩, ?_⟩
  · rw [topologicalOrder_eq, if_neg (not_not.2 hlength)]
  · intro other hother
    refine hexact.greedy.le hother.topological (fun x hx => hother.perm.subset hx) ?_
    rw [hother.perm.length_eq, List.length_range, hlength]

/-- With a cycle the subtasks on cycles and those that depend on them are named. -/
theorem topologicalOrder_of_cycle (hrange : InRange dependencies)
    (hcycle : ¬Acyclic dependencies) :
    ∃ numbers, topologicalOrder dependencies = .error (.valueError
        ("The subtask dependencies form a cycle; subtasks in it or depending on it: " ++
          joinNumbers numbers ++ ".")) ∧
      numbers.Pairwise (· < ·) ∧
      ∀ index, index ∈ numbers ↔
        index < dependencies.length ∧ ReachesCycle (dependenciesOf dependencies) index := by
  obtain ⟨hexact, hready⟩ := finalState_exact dependencies
  refine ⟨(List.range dependencies.length).filter fun index =>
    0 < (finalState dependencies).remaining index, ?_, ?_, ?_⟩
  · rw [topologicalOrder_eq, if_pos ((length_order_eq_iff hrange).not.2 hcycle)]
    rfl
  · exact List.pairwise_lt_range.filter _
  · intro index
    rw [List.mem_filter, List.mem_range, decide_eq_true_eq]
    refine and_congr_right fun hindex => ?_
    rw [← hexact.not_mem_order_iff hready hrange hindex, Nat.pos_iff_ne_zero, not_iff_not]
    constructor
    · intro hzero
      by_contra hfresh
      have hmem := hexact.complete index hindex hfresh hzero
      rw [hready] at hmem
      cases hmem
    · intro hmem
      exact hexact.sound.remaining_eq_zero_iff.2 fun number hnumber =>
        hexact.sound.topological.reads_mem hmem hnumber

end Grading
end ContestManagement
