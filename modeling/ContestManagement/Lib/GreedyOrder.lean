import ContestManagement.Lib.Sweep
import Mathlib.Data.Fintype.Pigeonhole
import Mathlib.Data.List.Lex
import Mathlib.Logic.Relation

/-!
# The least topological order

An order that always takes the least node whose turn it could be is the lexicographically least of
all topological orders.  The nodes that no order can reach are those from which a path leads to a
cycle.
-/

namespace ContestManagement
namespace Lib

/-! ## Cycles -/

section Cycles

variable {α : Type*}

/-- There is an edge to each node that is read. -/
def Reads (reads : α → List α) (node d : α) : Prop := d ∈ reads node

/-- A path leads from the node to a cycle, or the node lies on one. -/
def ReachesCycle (reads : α → List α) (node : α) : Prop :=
  ∃ c, Relation.ReflTransGen (Reads reads) node c ∧ Relation.TransGen (Reads reads) c c

variable {reads : α → List α}

theorem iterate_reads {f : α → α} {s : Set α} (hf : ∀ x ∈ s, f x ∈ s ∧ Reads reads x (f x)) {x : α}
    (hx : x ∈ s) (k : ℕ) :
    f^[k] x ∈ s ∧ Relation.ReflTransGen (Reads reads) x (f^[k] x) := by
  induction k with
  | zero => exact ⟨hx, .refl⟩
  | succ k ih =>
      rw [Function.iterate_succ_apply']
      exact ⟨(hf _ ih.1).1, ih.2.tail (hf _ ih.1).2⟩

/-- Whoever never runs out of nodes to read in a finite set gets into a cycle. -/
theorem reachesCycle_of_closed {s : Set α} (hs : s.Finite)
    (hclosed : ∀ x ∈ s, ∃ y ∈ s, Reads reads x y) {x : α} (hx : x ∈ s) : ReachesCycle reads x := by
  have hnext : ∀ x, ∃ y, x ∈ s → y ∈ s ∧ Reads reads x y := by
    intro x
    by_cases h : x ∈ s
    · obtain ⟨y, hy⟩ := hclosed x h
      exact ⟨y, fun _ => hy⟩
    · exact ⟨x, fun h' => absurd h' h⟩
  choose f hf using hnext
  have hpath := fun {y} (hy : y ∈ s) => iterate_reads (f := f) hf hy
  have : Finite s := hs
  -- Two of infinitely many steps end at the same node.
  obtain ⟨i, j, hne, heq⟩ := Finite.exists_ne_map_eq_of_infinite
    fun k : ℕ => (⟨f^[k] x, (hpath hx k).1⟩ : s)
  have heq : f^[i] x = f^[j] x := congrArg Subtype.val heq
  obtain ⟨i, k, hcycle⟩ : ∃ i k, f^[k + 1] (f^[i] x) = f^[i] x := by
    rcases Nat.lt_or_gt_of_ne hne with hlt | hlt
    · refine ⟨i, j - i - 1, ?_⟩
      rw [← Function.iterate_add_apply, show j - i - 1 + 1 + i = j by omega]
      exact heq.symm
    · refine ⟨j, i - j - 1, ?_⟩
      rw [← Function.iterate_add_apply, show i - j - 1 + 1 + j = i by omega]
      exact heq
  obtain ⟨hmem, hreach⟩ := hpath hx i
  refine ⟨f^[i] x, hreach, ?_⟩
  obtain ⟨hmem', hreads⟩ := hf _ hmem
  have hback := (hpath hmem' k).2
  rw [← Function.iterate_succ_apply, hcycle] at hback
  exact Relation.TransGen.head' hreads hback

/-- No path leads from an ordered node to a cycle. -/
theorem Topological.not_reachesCycle {order : List α} (h : Topological reads order) :
    ∀ node ∈ order, ¬ReachesCycle reads node := by
  refine h.induction ?_
  rintro node - ih ⟨c, hpath, hcycle⟩
  rcases hpath.cases_head with rfl | ⟨d, hd, hrest⟩
  · obtain ⟨d, hd, hrest⟩ := Relation.TransGen.head'_iff.1 hcycle
    exact ih d hd ⟨node, hrest, hcycle⟩
  · exact ih d hd ⟨c, hrest, hcycle⟩

end Cycles

/-! ## Greedy orders -/

variable {α : Type*} [LinearOrder α]

/-- Each node of `order` is the least of the nodes that are left and have read everything. -/
def Greedy (reads : α → List α) (nodes order : List α) : Prop :=
  ∀ first node rest, order = first ++ node :: rest → ∀ x ∈ nodes, x ∉ first →
    (∀ d ∈ reads x, d ∈ first) → node ≤ x

variable {reads : α → List α} {nodes order : List α}

theorem Greedy.nil : Greedy reads nodes [] := by
  intro first node rest hsplit
  simp at hsplit

theorem Greedy.concat (h : Greedy reads nodes order) {node : α}
    (hleast : ∀ x ∈ nodes, x ∉ order → (∀ d ∈ reads x, d ∈ order) → node ≤ x) :
    Greedy reads nodes (order ++ [node]) := by
  intro first other rest hsplit
  rcases List.eq_nil_or_concat rest with rfl | ⟨init, last, rfl⟩
  · obtain ⟨rfl, heq⟩ := List.append_inj' hsplit rfl
    cases heq
    exact hleast
  · rw [List.concat_eq_append, ← List.cons_append, ← List.append_assoc] at hsplit
    obtain ⟨hinit, -⟩ := List.append_inj' hsplit rfl
    exact h first other init hinit

/-- Two orders that begin with the same nodes. -/
theorem Greedy.le_behind {first rest other : List α} (h : Greedy reads nodes (first ++ rest))
    (hother : Topological reads (first ++ other)) (hnodes : ∀ x ∈ other, x ∈ nodes)
    (hlength : rest.length = other.length) : rest = other ∨ List.Lex (· < ·) rest other := by
  induction rest generalizing first other with
  | nil => exact Or.inl (List.eq_nil_of_length_eq_zero hlength.symm).symm
  | cons a rest ih =>
      cases other with
      | nil => simp at hlength
      | cons b other =>
          have hfresh : b ∉ first := by
            intro hmem
            exact (List.nodup_append.1 hother.nodup).2.2 b hmem b (by simp) rfl
          have hle : a ≤ b := h first a rest rfl b (hnodes b (by simp)) hfresh
            (hother.before first b other rfl)
          rcases lt_or_eq_of_le hle with hlt | rfl
          · exact Or.inr (.rel hlt)
          · have hrest : Greedy reads nodes ((first ++ [a]) ++ rest) := by simpa using h
            have hother' : Topological reads ((first ++ [a]) ++ other) := by simpa using hother
            rcases ih hrest hother' (fun x hx => hnodes x (by simp [hx])) (by simpa using hlength)
              with rfl | hlex
            · exact Or.inl rfl
            · exact Or.inr (.cons hlex)

/-- A greedy order comes before every other topological order of the same nodes. -/
theorem Greedy.le {other : List α} (h : Greedy reads nodes order)
    (hother : Topological reads other) (hnodes : ∀ x ∈ other, x ∈ nodes)
    (hlength : order.length = other.length) : order = other ∨ List.Lex (· < ·) order other :=
  Greedy.le_behind (List.nil_append order ▸ h) (List.nil_append other ▸ hother) hnodes hlength

end Lib
end ContestManagement
