import Mathlib.Algebra.Order.Ring.Int
import Mathlib.Data.List.Perm.Basic

/-!
# Counting rows by their keys

Rows are counted under some keys.  Where no row has two of the keys the counts add up, and where
every key has one row there are as many rows as keys.
-/

namespace ContestManagement
namespace Lib

variable {κ β : Type}

theorem countP_or_of_disjoint {rows : List β} {p q : β → Bool}
    (h : ∀ row ∈ rows, ¬ (p row = true ∧ q row = true)) :
    rows.countP (fun row => p row || q row) = rows.countP p + rows.countP q := by
  induction rows with
  | nil => rfl
  | cons row rest ih =>
      have hrow := h row List.mem_cons_self
      have hrest := ih fun other hother => h other (List.mem_cons_of_mem _ hother)
      simp only [List.countP_cons, hrest]
      cases hp : p row <;> cases hq : q row
      · simp
      · simp
        omega
      · simp
        omega
      · exact absurd ⟨hp, hq⟩ hrow

/-- Rows that are counted under different keys are counted once in all. -/
theorem sum_countP {rows : List β} {p : κ → β → Bool} {keys : List κ}
    (h : keys.Pairwise fun a b => ∀ row ∈ rows, ¬ (p a row = true ∧ p b row = true)) :
    (keys.map fun key => rows.countP (p key)).sum =
      rows.countP fun row => keys.any fun key => p key row := by
  induction keys with
  | nil => simp
  | cons key rest ih =>
      obtain ⟨hkey, hrest⟩ := List.pairwise_cons.1 h
      rw [List.map_cons, List.sum_cons, ih hrest]
      simp only [List.any_cons]
      rw [countP_or_of_disjoint]
      rintro row hrow ⟨hp, hany⟩
      obtain ⟨other, hother, hq⟩ := List.any_eq_true.1 hany
      exact hkey other hother row hrow ⟨hp, hq⟩

/-- As many rows have one of some keys as there are keys. -/
theorem countP_contains [DecidableEq κ] {rows : List β} {key : β → κ}
    {keys : List κ} (hrows : (rows.map key).Nodup) (hkeys : keys.Nodup)
    (hsub : ∀ k ∈ keys, k ∈ rows.map key) :
    rows.countP (fun row => keys.contains (key row)) = keys.length := by
  have hperm : ((rows.map key).filter fun k => keys.contains k).Perm keys := by
    refine (List.perm_ext_iff_of_nodup (hrows.filter _) hkeys).2 fun k => ?_
    rw [List.mem_filter, List.contains_iff_mem]
    exact ⟨fun h => h.2, fun h => ⟨hsub k h, h⟩⟩
  rw [← hperm.length_eq, ← List.countP_eq_length_filter, List.countP_map]
  rfl

/-- What is taken is what is no longer there. -/
theorem length_eq_filter_not (rows : List β) (taken : β → Bool) :
    rows.length = (rows.filter fun row => !taken row).length + rows.countP taken := by
  rw [List.countP_eq_length_filter, Nat.add_comm]
  exact (List.length_eq_length_filter_add taken)

end Lib
end ContestManagement
