import Mathlib.Data.List.DropRight
import Mathlib.Data.List.Basic

/-!
# The part of a journal since the last reset

A journal is a list that is only appended to.  `sinceLast` is what was written after the last
entry of some kind, the whole journal if there is none.
-/

namespace ContestManagement
namespace Lib

variable {α : Type}

/-- The entries after the last one for which `p` holds. -/
def sinceLast (p : α → Bool) (journal : List α) : List α :=
  journal.rtakeWhile fun x => !p x

theorem sinceLast_append {p : α → Bool} (journal : List α) {new : List α}
    (h : ∀ x ∈ new, p x = false) : sinceLast p (journal ++ new) = sinceLast p journal ++ new := by
  induction new using List.reverseRecOn with
  | nil => simp
  | append_singleton new x ih =>
      have hx : p x = false := h x (by simp)
      have hnew : ∀ y ∈ new, p y = false := fun y hy => h y (by simp [hy])
      unfold sinceLast at ih ⊢
      rw [← List.append_assoc, List.rtakeWhile_concat_pos _ _ _ (by simp [hx]), ih hnew,
        List.append_assoc]

/-- Only what comes after a new entry of the kind counts. -/
theorem sinceLast_append_cons {p : α → Bool} (journal : List α) {x : α} {new : List α}
    (hx : p x = true) (h : ∀ y ∈ new, p y = false) : sinceLast p (journal ++ x :: new) = new := by
  have hsplit : journal ++ x :: new = (journal ++ [x]) ++ new := by simp
  rw [hsplit, sinceLast_append _ h]
  unfold sinceLast
  rw [List.rtakeWhile_concat_neg _ _ _ (by simp [hx]), List.nil_append]

/-! ## Changing one element of a list -/

section Set

variable {l : List α} {i : Nat} {a b : α} {P : α → Prop}

/-- An element with a property, after another element was put in the place of one. -/
theorem exists_mem_set_of (hget : l[i]? = some a) (h : ∃ x ∈ l, P x) :
    P a ∨ ∃ x ∈ l.set i b, P x := by
  obtain ⟨x, hx, hP⟩ := h
  obtain ⟨j, hj⟩ := List.mem_iff_getElem?.1 hx
  by_cases hij : i = j
  · subst hij
    rw [hget, Option.some.injEq] at hj
    exact Or.inl (hj ▸ hP)
  · refine Or.inr ⟨x, List.mem_iff_getElem?.2 ⟨j, ?_⟩, hP⟩
    rw [List.getElem?_set_ne hij, hj]

theorem exists_mem_of_set (h : ∃ x ∈ l.set i b, P x) : P b ∨ ∃ x ∈ l, P x := by
  obtain ⟨x, hx, hP⟩ := h
  rcases List.mem_or_eq_of_mem_set hx with hmem | rfl
  · exact Or.inr ⟨x, hmem, hP⟩
  · exact Or.inl hP

theorem mem_set_self (hget : l[i]? = some a) : b ∈ l.set i b := by
  obtain ⟨hlt, -⟩ := List.getElem?_eq_some_iff.1 hget
  exact List.mem_set hlt b

end Set

end Lib
end ContestManagement
