import ContestManagement.Lib.Python

/-!
# Computations seen through an abstraction

A computation on states with more in them than another one sees is compared with that one by a map
that forgets the rest.  What the parts of a computation have in common with the parts of the other
one, the whole has.
-/

namespace ContestManagement
namespace Lib

variable {α β γ δ ε ε' : Type}

theorem map_bind {x : Except ε α} {f : α → Except ε β} {g : β → γ} {h : α → δ}
    {f' : δ → Except ε γ} (hf : ∀ a, (f a).map g = f' (h a)) :
    (x >>= f).map g = x.map h >>= f' := by
  cases x with
  | error e => rfl
  | ok a => exact hf a

theorem map_foldlM {f : β → α → Except ε β} {g : β → γ} {f' : γ → α → Except ε γ}
    (hf : ∀ b a, (f b a).map g = f' (g b) a) (values : List α) (start : β) :
    (values.foldlM f start).map g = values.foldlM f' (g start) := by
  induction values generalizing start with
  | nil => rfl
  | cons a rest ih =>
      rw [List.foldlM_cons, List.foldlM_cons, ← hf]
      exact map_bind fun b => ih b

theorem map_mapError (x : Except ε α) (g : α → β) (h : ε → ε') :
    (x.mapError h).map g = (x.map g).mapError h := by
  cases x with
  | error e => rfl
  | ok a => rfl

theorem mapError_eq_ok {x : Except ε α} {h : ε → ε'} {a : α} :
    x.mapError h = .ok a ↔ x = .ok a := by
  cases x with
  | error e =>
      constructor
      · intro heq
        cases heq
      · intro heq
        cases heq
  | ok b =>
      constructor
      · intro heq
        cases heq
        rfl
      · intro heq
        cases heq
        rfl

/-- What the computation on the states does, the other one does on what it sees of them. -/
theorem eq_ok_of_map {x : Except ε α} {g : α → β} {y : Except ε β} (hmap : x.map g = y) {a : α}
    (h : x = .ok a) : y = .ok (g a) := by
  rw [← hmap, h]
  rfl

end Lib
end ContestManagement
