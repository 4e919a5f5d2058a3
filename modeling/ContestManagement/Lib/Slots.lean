import Mathlib.Algebra.GroupWithZero.Nat
import Mathlib.Data.List.Basic
import Mathlib.Tactic.Common

/-!
# Lists of numbered slots

A list whose elements are known by their position: one of them is replaced, or a new one is added
at the end.  The lemmas say where an element of the new list was before.
-/

namespace ContestManagement
namespace Lib
namespace Slots

variable {α : Type*} {l : List α} {index place : Nat} {a b c : α}

theorem getElem?_set_of_some (h : l[index]? = some a) :
    (l.set index b)[place]? = if place = index then some b else l[place]? := by
  have hlt : index < l.length := (List.getElem?_eq_some_iff.1 h).1
  rw [List.getElem?_set]
  by_cases hplace : place = index
  · simp [hplace, hlt]
  · simp [hplace, Ne.symm hplace]

theorem of_getElem?_set (h : (l.set index b)[place]? = some c) :
    place = index ∧ c = b ∨ place ≠ index ∧ l[place]? = some c := by
  rw [List.getElem?_set] at h
  split at h
  · rename_i heq
    split at h
    · rw [Option.some.injEq] at h
      exact Or.inl ⟨heq.symm, h.symm⟩
    · cases h
  · rename_i hne
    exact Or.inr ⟨Ne.symm hne, h⟩

theorem of_getElem?_concat (h : (l ++ [b])[place]? = some c) :
    l[place]? = some c ∨ place = l.length ∧ c = b := by
  rcases Nat.lt_or_ge place l.length with hlt | hge
  · rw [List.getElem?_append_left hlt] at h
    exact Or.inl h
  · rw [List.getElem?_append_right hge, List.getElem?_singleton] at h
    split at h
    · rename_i hzero
      rw [Option.some.injEq] at h
      exact Or.inr ⟨by omega, h.symm⟩
    · cases h

theorem getElem?_concat_of_some (h : l[place]? = some c) : (l ++ [b])[place]? = some c := by
  rw [List.getElem?_append_left (List.getElem?_eq_some_iff.1 h).1]
  exact h

theorem getElem?_concat_length : (l ++ [b])[l.length]? = some b := by
  rw [List.getElem?_append_right (Nat.le_refl _), Nat.sub_self]
  rfl

theorem lt_length_of_some (h : l[place]? = some c) : place < l.length :=
  (List.getElem?_eq_some_iff.1 h).1

theorem getElem?_modify_of_some {f : α → α} (h : l[place]? = some c) :
    (l.modify index f)[place]? = some (if index = place then f c else c) := by
  rw [List.getElem?_modify, h]
  rfl

theorem of_getElem?_modify {f : α → α} (h : (l.modify index f)[place]? = some c) :
    ∃ old, l[place]? = some old ∧ c = if index = place then f old else old := by
  rw [List.getElem?_modify, Option.map_eq_map, Option.map_eq_some_iff] at h
  obtain ⟨old, hold, rfl⟩ := h
  exact ⟨old, hold, rfl⟩

/-- A sum over the slots changes by the slot that is replaced. -/
theorem sum_map_set (f : α → Nat) (h : l[index]? = some a) :
    ((l.set index b).map f).sum + f a = (l.map f).sum + f b := by
  induction l generalizing index with
  | nil => cases h
  | cons head rest ih =>
      cases index with
      | zero =>
          rw [List.getElem?_cons_zero, Option.some.injEq] at h
          subst h
          simp only [List.set_cons_zero, List.map_cons, List.sum_cons]
          omega
      | succ index =>
          rw [List.getElem?_cons_succ] at h
          have hrest := ih h
          simp only [List.set_cons_succ, List.map_cons, List.sum_cons]
          omega

end Slots
end Lib
end ContestManagement
