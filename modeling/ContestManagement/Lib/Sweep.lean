import Mathlib.Data.List.Induction
import Mathlib.Data.List.Nodup
import Mathlib.Logic.Function.Basic
import Mathlib.Tactic.Common

/-!
# Evaluation in topological order

A sweep visits nodes in some order and gives each one a value computed from the
values given before.  When every node comes after the nodes its rule reads, the
result is a solution of the rule: each value is the rule applied to the result
itself, so that proofs can forget the loop.
-/

namespace ContestManagement
namespace Lib

variable {α β : Type*}

/-- Every node of `order` comes once, after the nodes it reads. -/
structure Topological (reads : α → List α) (order : List α) : Prop where
  nodup : order.Nodup
  before : ∀ first node rest, order = first ++ node :: rest → ∀ d ∈ reads node, d ∈ first

namespace Topological

variable {reads : α → List α} {order : List α}

theorem of_concat {node : α} (h : Topological reads (order ++ [node])) :
    Topological reads order ∧ node ∉ order ∧ ∀ d ∈ reads node, d ∈ order := by
  have hnodup := List.nodup_append.1 h.nodup
  refine ⟨⟨hnodup.1, ?_⟩, ?_, ?_⟩
  · intro first x rest hsplit
    exact h.before first x (rest ++ [node]) (by simp [hsplit])
  · intro hmem
    exact hnodup.2.2 node hmem node (by simp) rfl
  · exact h.before order node [] (by simp)

theorem concat {node : α} (h : Topological reads order) (hnew : node ∉ order)
    (hreads : ∀ d ∈ reads node, d ∈ order) : Topological reads (order ++ [node]) := by
  constructor
  · rw [List.nodup_append]
    refine ⟨h.nodup, List.nodup_singleton node, ?_⟩
    intro x hx y hy hxy
    rw [List.mem_singleton] at hy
    exact hnew (hy ▸ hxy ▸ hx)
  · intro first x rest hsplit
    rcases List.eq_nil_or_concat rest with rfl | ⟨init, last, rfl⟩
    · obtain ⟨rfl, hx⟩ := List.append_inj' hsplit rfl
      cases hx
      exact hreads
    · rw [List.concat_eq_append, ← List.cons_append, ← List.append_assoc] at hsplit
      obtain ⟨hinit, -⟩ := List.append_inj' hsplit rfl
      exact h.before first x init hinit

theorem reads_mem (h : Topological reads order) {node d : α} (hnode : node ∈ order)
    (hd : d ∈ reads node) : d ∈ order := by
  obtain ⟨first, rest, rfl⟩ := List.append_of_mem hnode
  exact List.mem_append_left _ (h.before first node rest rfl d hd)

/-- Induction along a topological order. -/
theorem induction (h : Topological reads order) {P : α → Prop}
    (hstep : ∀ node ∈ order, (∀ d ∈ reads node, P d) → P node) :
    ∀ node ∈ order, P node := by
  induction order using List.reverseRecOn with
  | nil => simp
  | append_singleton init last ih =>
      obtain ⟨hinit, -, hreads⟩ := h.of_concat
      have hbefore : ∀ node ∈ init, P node :=
        ih hinit fun node hnode => hstep node (List.mem_append_left _ hnode)
      intro node hnode
      rcases List.mem_append.1 hnode with hnode | hnode
      · exact hbefore node hnode
      · rw [List.mem_singleton] at hnode
        subst hnode
        exact hstep node (by simp) fun d hd => hbefore d (hreads d hd)

end Topological

variable [DecidableEq α]

/-- Visit `order` and give each node the value its rule computes. -/
def sweep (rule : (α → β) → α → β) (start : α → β) (order : List α) : α → β :=
  order.foldl (fun values node => Function.update values node (rule values node)) start

theorem sweep_concat (rule : (α → β) → α → β) (start : α → β) (order : List α) (node : α) :
    sweep rule start (order ++ [node]) =
      Function.update (sweep rule start order) node (rule (sweep rule start order) node) := by
  simp [sweep]

/-- A sweep in topological order solves its rule. -/
theorem sweep_eq {reads : α → List α} {rule : (α → β) → α → β}
    (hrule : ∀ v w node, (∀ d ∈ reads node, v d = w d) → rule v node = rule w node)
    (start : α → β) {order : List α} (h : Topological reads order) :
    ∀ node ∈ order, sweep rule start order node = rule (sweep rule start order) node := by
  induction order using List.reverseRecOn with
  | nil => simp
  | append_singleton init last ih =>
      obtain ⟨hinit, hfresh, hreads⟩ := h.of_concat
      rw [sweep_concat]
      -- Nodes other than the last one keep their value, and none of them reads the last.
      have hkeep : ∀ d ∈ init, Function.update (sweep rule start init) last
          (rule (sweep rule start init) last) d = sweep rule start init d := by
        intro d hd
        have hne : d ≠ last := by
          rintro rfl
          exact hfresh hd
        exact Function.update_of_ne hne _ _
      intro node hnode
      rcases List.mem_append.1 hnode with hnode | hnode
      · rw [hkeep node hnode, ih hinit node hnode]
        exact hrule _ _ node fun d hd => (hkeep d (hinit.reads_mem hnode hd)).symm
      · rw [List.mem_singleton] at hnode
        subst hnode
        rw [Function.update_self]
        exact hrule _ _ node fun d hd => (hkeep d (hreads d hd)).symm

theorem sweep_of_not_mem (rule : (α → β) → α → β) (start : α → β) {order : List α} {node : α}
    (hnode : node ∉ order) : sweep rule start order node = start node := by
  induction order using List.reverseRecOn with
  | nil => rfl
  | append_singleton init last ih =>
      rw [List.mem_append, not_or, List.mem_singleton] at hnode
      rw [sweep_concat, Function.update_of_ne hnode.2, ih hnode.1]

end Lib
end ContestManagement
