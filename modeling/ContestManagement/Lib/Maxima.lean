import Mathlib.Data.List.Perm.Basic
import Mathlib.Order.MinMax
import Mathlib.Order.Monotone.Basic

/-!
# Maxima of a list from a start

`values.foldl max start` is what a loop computes that keeps the largest value so far.  It is the
start or one of the values, it does not depend on the order of the values, and a monotone
function can be applied before or after the loop.
-/

namespace ContestManagement
namespace Lib

variable {α β : Type*} [LinearOrder α] [LinearOrder β]

theorem foldl_max_spec (values : List α) (start : α) :
    start ≤ values.foldl max start ∧ (∀ x ∈ values, x ≤ values.foldl max start) ∧
      (values.foldl max start = start ∨ values.foldl max start ∈ values) := by
  induction values generalizing start with
  | nil => simp
  | cons x rest ih =>
      obtain ⟨hbase, hall, hmem⟩ := ih (max start x)
      rw [List.foldl_cons]
      refine ⟨(le_max_left start x).trans hbase, ?_, ?_⟩
      · intro y hy
        rcases List.mem_cons.1 hy with rfl | hy
        · exact (le_max_right start y).trans hbase
        · exact hall y hy
      · rcases hmem with heq | hmem
        · rcases max_choice start x with hq | hx
          · exact Or.inl (heq.trans hq)
          · exact Or.inr (by rw [heq, hx]; simp)
        · exact Or.inr (List.mem_cons_of_mem x hmem)

theorem le_foldl_max (values : List α) (start : α) : start ≤ values.foldl max start :=
  (foldl_max_spec values start).1

theorem foldl_max_perm {values others : List α} (h : values.Perm others) (start : α) :
    values.foldl max start = others.foldl max start :=
  h.foldl_eq start

theorem foldl_max_map {f : α → β} (hf : Monotone f) (values : List α) (start : α) :
    (values.map f).foldl max (f start) = f (values.foldl max start) := by
  rw [List.foldl_map]
  exact List.foldl_hom f fun x y => (hf.map_max).symm

theorem foldl_max_concat (values : List α) (x start : α) :
    (values ++ [x]).foldl max start = max (values.foldl max start) x := by
  rw [List.foldl_append, List.foldl_cons, List.foldl_nil]

end Lib
end ContestManagement
