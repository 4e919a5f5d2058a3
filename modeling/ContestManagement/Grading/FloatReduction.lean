import ContestManagement.Grading.Reduction

/-!
# Reductions with floats

As long as every outcome is a number, what the minimum or the threshold makes worth nothing stays so
whatever else comes in.  A product of floats may vanish although no outcome does, and it may
overflow and be no number at all.
-/

namespace ContestManagement
namespace Grading

open Lib
open PyFloat (product)

variable {kind : GroupKind} {outcomes all : List PyFloat} {parameter : PyValue}
  {x m bound f f' : PyFloat}

theorem reduce_product_iff : reduce .groupMul outcomes parameter = .ok f ↔
    outcomes ≠ [] ∧ product outcomes = f := by
  rw [reduce_mul_eq_ok_iff]
  constructor
  · rintro ⟨outcome, rest, rfl, rfl⟩
    exact ⟨List.cons_ne_nil _ _, rfl⟩
  · rintro ⟨hne, rfl⟩
    obtain ⟨outcome, rest, rfl⟩ := List.exists_cons_of_ne_nil hne
    exact ⟨outcome, rest, rfl, rfl⟩

/-! ### The least outcome -/

theorem leastOutcome_nan (rest : List PyFloat) : leastOutcome .nan rest = .nan := by
  induction rest with
  | nil => rfl
  | cons y rest ih =>
      have hy : ¬y < .nan := fun h => (PyFloat.ne_nan_of_lt h).2 rfl
      rw [leastOutcome, List.foldl_cons, if_neg hy]
      exact ih

/-- The least outcome is below a bound as soon as one is, unless the first is no number. -/
theorem leastOutcome_lt_iff (hx : x ≠ .nan) (rest : List PyFloat) :
    leastOutcome x rest < bound ↔ ∃ y ∈ x :: rest, y < bound := by
  induction rest generalizing x with
  | nil => simp [leastOutcome]
  | cons y rest ih =>
      rw [leastOutcome, List.foldl_cons]
      by_cases hyx : y < x
      · rw [if_pos hyx]
        refine (ih (PyFloat.ne_nan_of_lt hyx).1).trans ?_
        simp only [List.exists_mem_cons_iff]
        exact ⟨.inr, fun h => h.elim
          (fun hbound => .inl (PyFloat.lt_of_lt_of_le hyx (PyFloat.le_of_lt hbound))) id⟩
      · rw [if_neg hyx]
        refine (ih hx).trans ?_
        simp only [List.exists_mem_cons_iff]
        have hfirst : y < bound → x < bound := fun hbound =>
          PyFloat.lt_of_le_of_lt
            (PyFloat.le_of_not_lt (PyFloat.ne_nan_of_lt hbound).1 hx hyx) hbound
        tauto

theorem leastOutcome_mem (x : PyFloat) (rest : List PyFloat) :
    leastOutcome x rest ∈ x :: rest := by
  induction rest generalizing x with
  | nil => exact List.mem_singleton_self x
  | cons y rest ih =>
      rw [leastOutcome, List.foldl_cons]
      by_cases hyx : y < x
      · rw [if_pos hyx]
        exact List.mem_cons_of_mem x (ih y)
      · rw [if_neg hyx]
        have hmem : leastOutcome x rest ∈ x :: rest := ih x
        rw [List.mem_cons] at hmem ⊢
        exact hmem.imp id (List.mem_cons_of_mem y)

/-- Among numbers nothing is below the least one. -/
theorem leastOutcome_le {rest : List PyFloat} (h : ∀ y ∈ x :: rest, y ≠ .nan) {y : PyFloat}
    (hy : y ∈ x :: rest) : leastOutcome x rest ≤ y := by
  have hleast := h _ (leastOutcome_mem x rest)
  refine PyFloat.le_of_not_lt (h y hy) hleast fun hlt => ?_
  have hself := (leastOutcome_lt_iff (h x List.mem_cons_self) rest).2 ⟨y, hy, hlt⟩
  rw [PyFloat.lt_iff_not_le hleast hleast] at hself
  exact hself (PyFloat.le_refl hleast)

/-! ### What stays -/

/-- With minimum and threshold, further outcomes do not bring anything back. -/
theorem reduce_nonpos_of_subset (hkind : kind ≠ .groupMul) (hsub : outcomes ⊆ all)
    (hall : ∀ x ∈ all, x ≠ .nan) (h : reduce kind outcomes parameter = .ok f) (hf : f ≤ 0)
    (h' : reduce kind all parameter = .ok f') : f' ≤ 0 := by
  cases kind with
  | groupMul => exact absurd rfl hkind
  | groupMin =>
      obtain ⟨x, rest, rfl, rfl⟩ := reduce_min_eq_ok_iff.1 h
      obtain ⟨x', rest', rfl, rfl⟩ := reduce_min_eq_ok_iff.1 h'
      exact PyFloat.le_trans (leastOutcome_le hall (hsub (leastOutcome_mem x rest))) hf
  | groupThreshold =>
      rw [reduce_threshold_nonpos_iff PyFloat.zero_nonpos PyFloat.not_one_nonpos h] at hf
      rw [reduce_threshold_nonpos_iff PyFloat.zero_nonpos PyFloat.not_one_nonpos h']
      obtain ⟨x, hx, hfatal⟩ := hf
      exact ⟨x, hsub hx, hfatal⟩

/-- Minimum and threshold of numbers always give a number. -/
theorem reduce_ne_nan (hkind : kind ≠ .groupMul) (houtcomes : ∀ x ∈ outcomes, x ≠ .nan)
    (h : reduce kind outcomes parameter = .ok f) : f ≠ .nan := by
  cases kind with
  | groupMul => exact absurd rfl hkind
  | groupMin =>
      obtain ⟨x, rest, rfl, rfl⟩ := reduce_min_eq_ok_iff.1 h
      exact houtcomes _ (leastOutcome_mem x rest)
  | groupThreshold =>
      obtain ⟨threshold, -, within, -, rfl⟩ := reduce_threshold_eq_ok_iff.1 h
      cases within with
      | true => exact PyFloat.noConfusion
      | false => exact PyFloat.noConfusion

/-! ### Full outcomes -/

/-- No outcome takes anything away from the subtask, when outcomes are floats. -/
def FullFloat (kind : GroupKind) (parameter : PyValue) (outcomes : List PyFloat) : Prop :=
  match kind with
  | .groupMin => outcomes.head? = some .nan ∨ ∀ x ∈ outcomes, ¬x < 1
  | .groupMul => ¬product outcomes < 1
  | .groupThreshold => ∀ x ∈ outcomes, ¬Fatal .groupThreshold parameter x

theorem reduce_float_lt_one_iff (h : reduce kind outcomes parameter = .ok f) :
    f < 1 ↔ ¬FullFloat kind parameter outcomes := by
  cases kind with
  | groupMin =>
      obtain ⟨x, rest, rfl, rfl⟩ := reduce_min_eq_ok_iff.1 h
      by_cases hx : x = .nan
      · subst hx
        rw [leastOutcome_nan]
        exact ⟨fun hlt => absurd rfl (PyFloat.ne_nan_of_lt hlt).1,
          fun hfull => absurd (.inl rfl) hfull⟩
      · rw [leastOutcome_lt_iff hx]
        have hfirst : (x :: rest).head? ≠ some .nan := fun h => hx (Option.some.inj h)
        simp only [FullFloat, hfirst, false_or, not_forall, not_not, exists_prop]
  | groupMul =>
      obtain ⟨-, rfl⟩ := reduce_product_iff.1 h
      exact not_not.symm
  | groupThreshold =>
      have hiff := reduce_threshold_nonpos_iff PyFloat.zero_nonpos PyFloat.not_one_nonpos h
      simp only [FullFloat, not_forall, not_not, exists_prop, ← hiff]
      obtain ⟨threshold, -, within, -, rfl⟩ := reduce_threshold_eq_ok_iff.1 h
      cases within with
      | true => exact ⟨fun hlt => absurd hlt (by decide), fun hle => absurd hle (by decide)⟩
      | false => exact ⟨fun _ => PyFloat.zero_nonpos, fun _ => by decide⟩

end Grading
end ContestManagement
