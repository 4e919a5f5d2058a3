import ContestManagement.Grading.ScoreTypes
import Mathlib.Algebra.Order.BigOperators.GroupWithZero.List
import Mathlib.Algebra.BigOperators.Ring.List
import Mathlib.Algebra.Order.Ring.Rat

/-!
# When a subtask is worth nothing

For outcomes that are not negative the three reductions have one thing in common:
the result is zero as soon as one outcome is fatal, whatever the others are, and
positive otherwise.
-/

namespace ContestManagement
namespace Grading

open Lib

section Reduce

variable {F : Type} [OfNat F 0] [LT F] [DecidableLT F] [Fractions F] {outcomes : List F}
  {parameter : PyValue} {f : F}

/-- An outcome that makes its subtask worth nothing. -/
def Fatal [LE F] (kind : GroupKind) (parameter : PyValue) (outcome : F) : Prop :=
  match kind with
  | .groupThreshold =>
      ∃ threshold, thresholdOf parameter = .ok threshold ∧
        withinThreshold threshold outcome = .ok false
  | _ => outcome ≤ 0

theorem withinThreshold_of_not_pos (threshold : PyValue) {outcome : F} (h : ¬0 < outcome) :
    withinThreshold threshold outcome = .ok false := by
  rw [withinThreshold, if_neg h]

theorem allWithin_eq_false_iff {threshold : PyValue} {b : Bool}
    (h : allWithin threshold outcomes = .ok b) :
    b = false ↔ ∃ x ∈ outcomes, withinThreshold threshold x = .ok false := by
  induction outcomes with
  | nil =>
      rw [allWithin, Except.ok.injEq] at h
      simp [← h]
  | cons x rest ih =>
      cases hx : withinThreshold threshold x with
      | error e =>
          simp only [allWithin, hx] at h
          cases h
      | ok within =>
          cases within with
          | true =>
              simp only [allWithin, hx] at h
              rw [ih h]
              simp [hx]
          | false =>
              simp only [allWithin, hx, Except.ok.injEq] at h
              simp [← h, hx]

/-- What is fatal to a threshold that can be read. -/
theorem fatal_threshold_iff [LE F] {threshold : PyValue} {outcome : F}
    (h : thresholdOf parameter = .ok threshold) :
    Fatal .groupThreshold parameter outcome ↔ withinThreshold threshold outcome = .ok false := by
  constructor
  · rintro ⟨threshold', hthreshold', hfalse⟩
    rw [h] at hthreshold'
    cases hthreshold'
    exact hfalse
  · intro hfalse
    exact ⟨threshold, h, hfalse⟩

variable [OfNat F 1] [Mul F]

/-- The threshold score type succeeds exactly when its threshold can be read as far
as needed. -/
theorem reduce_threshold_eq_ok_iff :
    reduce .groupThreshold outcomes parameter = .ok f ↔
      ∃ threshold, thresholdOf parameter = .ok threshold ∧
        ∃ within, allWithin threshold outcomes = .ok within ∧ f = if within then 1 else 0 := by
  simp only [reduce, bind_eq_ok_iff, pure_eq_ok_iff]
  constructor
  · rintro ⟨threshold, hthreshold, within, hwithin, rfl⟩
    exact ⟨threshold, hthreshold, within, hwithin, rfl⟩
  · rintro ⟨threshold, hthreshold, within, hwithin, rfl⟩
    exact ⟨threshold, hthreshold, within, hwithin, rfl⟩

/-- A threshold leaves nothing exactly when an outcome is fatal. -/
theorem reduce_threshold_nonpos_iff [LE F] (hzero : (0 : F) ≤ 0) (hone : ¬(1 : F) ≤ 0)
    (h : reduce .groupThreshold outcomes parameter = .ok f) :
    f ≤ 0 ↔ ∃ x ∈ outcomes, Fatal .groupThreshold parameter x := by
  obtain ⟨threshold, hthreshold, within, hwithin, rfl⟩ := reduce_threshold_eq_ok_iff.1 h
  simp only [fatal_threshold_iff (F := F) hthreshold]
  rw [← allWithin_eq_false_iff hwithin]
  cases within with
  | true => simpa using hone
  | false => simpa using hzero

theorem reduce_min_eq_ok_iff :
    reduce .groupMin outcomes parameter = .ok f ↔
      ∃ outcome rest, outcomes = outcome :: rest ∧ leastOutcome outcome rest = f := by
  cases outcomes with
  | nil => simp [reduce]
  | cons outcome rest => simp [reduce]

theorem reduce_mul_eq_ok_iff :
    reduce .groupMul outcomes parameter = .ok f ↔
      ∃ outcome rest, outcomes = outcome :: rest ∧ rest.foldl (· * ·) outcome = f := by
  cases outcomes with
  | nil => simp [reduce]
  | cons outcome rest => simp [reduce]

end Reduce

/-! ### Exact outcomes -/

theorem withinThreshold_of_nonpos (threshold : PyValue) {outcome : ℚ} (h : outcome ≤ 0) :
    withinThreshold threshold outcome = .ok false :=
  withinThreshold_of_not_pos threshold (not_lt.2 h)

theorem foldl_mul_eq_prod (x : ℚ) (rest : List ℚ) : rest.foldl (· * ·) x = (x :: rest).prod := by
  induction rest generalizing x with
  | nil => simp
  | cons y rest ih =>
      rw [List.foldl_cons, ih]
      simp [mul_assoc]

theorem min?_eq_leastOutcome (x : ℚ) (rest : List ℚ) :
    (x :: rest).min? = some (leastOutcome x rest) := by
  rw [List.min?_cons', leastOutcome]
  congr 2
  funext found outcome
  rw [min_comm, min_def']
  simp only [← not_lt, ite_not]

theorem reduce_groupMin_eq_ok_iff {outcomes : List ℚ} {parameter : PyValue} {q : ℚ} :
    reduce .groupMin outcomes parameter = .ok q ↔ outcomes.min? = some q := by
  rw [reduce_min_eq_ok_iff]
  cases outcomes with
  | nil => simp
  | cons outcome rest =>
      rw [min?_eq_leastOutcome]
      simp

theorem reduce_groupMul_eq_ok_iff {outcomes : List ℚ} {parameter : PyValue} {q : ℚ} :
    reduce .groupMul outcomes parameter = .ok q ↔ outcomes ≠ [] ∧ q = outcomes.prod := by
  rw [reduce_mul_eq_ok_iff]
  constructor
  · rintro ⟨outcome, rest, rfl, rfl⟩
    exact ⟨List.cons_ne_nil _ _, foldl_mul_eq_prod outcome rest⟩
  · rintro ⟨hne, rfl⟩
    obtain ⟨outcome, rest, rfl⟩ := List.exists_cons_of_ne_nil hne
    exact ⟨outcome, rest, rfl, foldl_mul_eq_prod outcome rest⟩

section Nonnegative

variable {kind : GroupKind} {outcomes : List ℚ} {parameter : PyValue} {q : ℚ}

theorem reduce_nonneg (hnonneg : ∀ x ∈ outcomes, 0 ≤ x)
    (h : reduce kind outcomes parameter = .ok q) : 0 ≤ q := by
  cases kind with
  | groupMin =>
      rw [reduce_groupMin_eq_ok_iff] at h
      exact hnonneg q (List.min?_mem h)
  | groupMul =>
      rw [reduce_groupMul_eq_ok_iff] at h
      rw [h.2]
      exact List.prod_nonneg hnonneg
  | groupThreshold =>
      obtain ⟨-, -, within, -, rfl⟩ := reduce_threshold_eq_ok_iff.1 h
      cases within with
      | true => simp
      | false => simp

/-- A subtask is worth nothing exactly when one of its outcomes is fatal. -/
theorem reduce_nonpos_iff (hnonneg : ∀ x ∈ outcomes, 0 ≤ x)
    (h : reduce kind outcomes parameter = .ok q) :
    q ≤ 0 ↔ ∃ x ∈ outcomes, Fatal kind parameter x := by
  cases kind with
  | groupMin =>
      rw [reduce_groupMin_eq_ok_iff] at h
      constructor
      · intro hq
        exact ⟨q, List.min?_mem h, hq⟩
      · rintro ⟨x, hx, hfatal⟩
        exact le_trans ((List.min?_eq_some_iff.1 h).2 x hx) hfatal
  | groupMul =>
      rw [reduce_groupMul_eq_ok_iff] at h
      have hprod : 0 ≤ outcomes.prod := List.prod_nonneg hnonneg
      rw [h.2]
      constructor
      · intro hq
        have hzero : (0 : ℚ) ∈ outcomes := List.prod_eq_zero_iff.1 (le_antisymm hq hprod)
        exact ⟨0, hzero, le_refl 0⟩
      · rintro ⟨x, hx, hfatal⟩
        have hzero : x = 0 := le_antisymm hfatal (hnonneg x hx)
        exact le_of_eq (List.prod_eq_zero_iff.2 (hzero ▸ hx))
  | groupThreshold => exact reduce_threshold_nonpos_iff le_rfl (by norm_num) h

/-- Zero is fatal to every subtask that can be reduced at all. -/
theorem fatal_of_nonpos (h : reduce kind outcomes parameter = .ok q) {x : ℚ} (hx : x ≤ 0) :
    Fatal kind parameter x := by
  cases kind with
  | groupMin => exact hx
  | groupMul => exact hx
  | groupThreshold =>
      obtain ⟨threshold, hthreshold, -⟩ := reduce_threshold_eq_ok_iff.1 h
      exact ⟨threshold, hthreshold, withinThreshold_of_nonpos threshold hx⟩

theorem reduce_eq_zero_of_fatal (hnonneg : ∀ x ∈ outcomes, 0 ≤ x)
    (h : reduce kind outcomes parameter = .ok q) {x : ℚ} (hx : x ∈ outcomes)
    (hfatal : Fatal kind parameter x) : q = 0 :=
  le_antisymm ((reduce_nonpos_iff hnonneg h).2 ⟨x, hx, hfatal⟩) (reduce_nonneg hnonneg h)

end Nonnegative

/-! ### Full outcomes -/

/-- No outcome takes anything away from the subtask. -/
def Full (kind : GroupKind) (parameter : PyValue) (outcomes : List ℚ) : Prop :=
  match kind with
  | .groupMin => ∀ x ∈ outcomes, 1 ≤ x
  | .groupMul => 1 ≤ outcomes.prod
  | .groupThreshold => ∀ x ∈ outcomes, ¬Fatal .groupThreshold parameter x

theorem reduce_lt_one_iff {kind : GroupKind} {outcomes : List ℚ} {parameter : PyValue} {q : ℚ}
    (h : reduce kind outcomes parameter = .ok q) : q < 1 ↔ ¬Full kind parameter outcomes := by
  cases kind with
  | groupMin =>
      rw [reduce_groupMin_eq_ok_iff] at h
      have hmin := List.min?_eq_some_iff.1 h
      rw [← not_le, not_iff_not]
      constructor
      · intro hone x hx
        exact le_trans hone (hmin.2 x hx)
      · intro hall
        exact hall q hmin.1
  | groupMul =>
      rw [reduce_groupMul_eq_ok_iff] at h
      rw [h.2, ← not_le]
      rfl
  | groupThreshold =>
      have hiff := reduce_threshold_nonpos_iff le_rfl (by norm_num) h
      simp only [Full, not_forall, not_not, exists_prop, ← hiff]
      obtain ⟨threshold, -, within, -, rfl⟩ := reduce_threshold_eq_ok_iff.1 h
      cases within with
      | true => simp
      | false => simp

/-- A subtask with an outcome of zero is not full. -/
theorem not_full_of_zero_mem {kind : GroupKind} {outcomes : List ℚ} {parameter : PyValue} {q : ℚ}
    (h : reduce kind outcomes parameter = .ok q) (hzero : (0 : ℚ) ∈ outcomes) :
    ¬Full kind parameter outcomes := by
  intro hfull
  cases kind with
  | groupMin => exact absurd (hfull 0 hzero) (by norm_num)
  | groupMul =>
      have hprod : outcomes.prod = 0 := List.prod_eq_zero hzero
      have hone : 1 ≤ outcomes.prod := hfull
      rw [hprod] at hone
      exact absurd hone (by norm_num)
  | groupThreshold => exact hfull 0 hzero (fatal_of_nonpos h (le_refl 0))

/-- Outcomes that are not positive are compared with no threshold. -/
theorem allWithin_ok_of_nonpos (threshold : PyValue) {outcomes : List ℚ}
    (h : ∀ x ∈ outcomes, x ≤ 0) : ∃ within, allWithin threshold outcomes = .ok within := by
  cases outcomes with
  | nil => exact ⟨true, rfl⟩
  | cons x rest =>
      have hx := withinThreshold_of_nonpos threshold (h x (by simp))
      exact ⟨false, by simp [allWithin, hx]⟩

/-! ### When a reduction succeeds -/

/-- A threshold that can be compared never raises. -/
theorem allWithin_ok_of_number {F : Type} [OfNat F 0] [LT F] [DecidableLT F] [Fractions F]
    {threshold : PyValue} {bound : ℚ} (h : threshold.number? = some bound) (outcomes : List F) :
    ∃ within, allWithin threshold outcomes = .ok within := by
  induction outcomes with
  | nil => exact ⟨true, rfl⟩
  | cons x rest ih =>
      have hx : ∃ within, withinThreshold threshold x = .ok within := by
        rw [withinThreshold]
        split
        · exact ⟨_, by rw [h]⟩
        · exact ⟨false, rfl⟩
      obtain ⟨within, hx⟩ := hx
      cases within with
      | true => simpa [allWithin, hx] using ih
      | false => exact ⟨false, by simp [allWithin, hx]⟩

/-- The parameter of a subtask whose score can be computed from any outcomes. -/
def Readable (kind : GroupKind) (parameter : PyValue) : Prop :=
  kind = .groupThreshold → ∃ threshold, thresholdOf parameter = .ok threshold ∧
    ∃ bound, threshold.number? = some bound

/-- What `SubtaskGate` learns from reducing `[1.0]`. -/
theorem readable_of_probe {kind : GroupKind} {parameter : PyValue} {q : ℚ}
    (h : reduce kind [1] parameter = .ok q) : Readable kind parameter := by
  rintro rfl
  obtain ⟨threshold, hthreshold, within, hwithin, -⟩ := reduce_threshold_eq_ok_iff.1 h
  refine ⟨threshold, hthreshold, ?_⟩
  cases hnumber : threshold.number? with
  | some bound => exact ⟨bound, rfl⟩
  | none => simp [allWithin, withinThreshold, hnumber] at hwithin

theorem reduce_ok_of_readable {F : Type} [OfNat F 0] [OfNat F 1] [Mul F] [LT F] [DecidableLT F]
    [Fractions F] {kind : GroupKind} {parameter : PyValue} (h : Readable kind parameter)
    {outcomes : List F} (hne : outcomes ≠ []) : ∃ f, reduce kind outcomes parameter = .ok f := by
  cases kind with
  | groupMin =>
      obtain ⟨outcome, rest, rfl⟩ := List.exists_cons_of_ne_nil hne
      exact ⟨_, reduce_min_eq_ok_iff.2 ⟨outcome, rest, rfl, rfl⟩⟩
  | groupMul =>
      obtain ⟨outcome, rest, rfl⟩ := List.exists_cons_of_ne_nil hne
      exact ⟨_, reduce_mul_eq_ok_iff.2 ⟨outcome, rest, rfl, rfl⟩⟩
  | groupThreshold =>
      obtain ⟨threshold, hthreshold, bound, hbound⟩ := h rfl
      obtain ⟨within, hwithin⟩ := allWithin_ok_of_number hbound outcomes
      exact ⟨_, reduce_threshold_eq_ok_iff.2 ⟨threshold, hthreshold, within, hwithin, rfl⟩⟩

theorem getPublicOutcome_ok_of_readable {kind : GroupKind} {parameter : PyValue}
    (h : Readable kind parameter) (x : ℚ) : ∃ text, getPublicOutcome kind x parameter = .ok text := by
  cases kind with
  | groupThreshold =>
      obtain ⟨threshold, hthreshold, bound, hbound⟩ := h rfl
      simp only [getPublicOutcome, bind_eq_ok_iff, pure_eq_ok_iff]
      by_cases hx : 0 < x
      · exact ⟨_, threshold, hthreshold, _, by rw [withinThreshold, if_pos hx, hbound], rfl⟩
      · exact ⟨_, threshold, hthreshold, _, by rw [withinThreshold, if_neg hx], rfl⟩
  | groupMin =>
      simp only [getPublicOutcome]
      split
      · exact ⟨_, rfl⟩
      · split
        · exact ⟨_, rfl⟩
        · exact ⟨_, rfl⟩
  | groupMul =>
      simp only [getPublicOutcome]
      split
      · exact ⟨_, rfl⟩
      · split
        · exact ⟨_, rfl⟩
        · exact ⟨_, rfl⟩

/-- The outcomes of a run in which some testcases were skipped. -/
def SkipsSome (outcomes skipped : List ℚ) : Prop :=
  List.Forall₂ (fun x y => y = x ∨ y = 0) outcomes skipped

/-- Skipping testcases never makes a reduction raise. -/
theorem reduce_ok_of_skips {kind : GroupKind} {parameter : PyValue} {outcomes skipped : List ℚ}
    (hskips : SkipsSome outcomes skipped) {q : ℚ}
    (h : reduce kind outcomes parameter = .ok q) : ∃ q', reduce kind skipped parameter = .ok q' := by
  have hempty : skipped = [] → outcomes = [] := by
    rintro rfl
    exact List.forall₂_nil_right_iff.1 hskips
  cases kind with
  | groupMin =>
      refine reduce_ok_of_readable (fun hkind => by cases hkind) fun hnil => ?_
      rw [hempty hnil] at h
      simp [reduce] at h
  | groupMul =>
      refine reduce_ok_of_readable (fun hkind => by cases hkind) fun hnil => ?_
      rw [hempty hnil] at h
      simp [reduce] at h
  | groupThreshold =>
      obtain ⟨threshold, hthreshold, within, hwithin, -⟩ := reduce_threshold_eq_ok_iff.1 h
      have hall : ∃ within', allWithin threshold skipped = .ok within' := by
        clear h hempty
        induction hskips generalizing within with
        | nil => exact ⟨true, rfl⟩
        | @cons x y xs ys hxy _ ih =>
            rcases hxy with rfl | rfl
            · cases hy : withinThreshold threshold y with
              | error e => simp [allWithin, hy] at hwithin
              | ok b =>
                  cases b with
                  | true =>
                      simp only [allWithin, hy] at hwithin
                      obtain ⟨within', hwithin'⟩ := ih _ hwithin
                      exact ⟨within', by simp [allWithin, hy, hwithin']⟩
                  | false => exact ⟨false, by simp [allWithin, hy]⟩
            · exact ⟨false, by
                simp [allWithin, withinThreshold_of_nonpos threshold (le_refl 0)]⟩
      obtain ⟨within', hwithin'⟩ := hall
      exact ⟨_, reduce_threshold_eq_ok_iff.2 ⟨threshold, hthreshold, within', hwithin', rfl⟩⟩

/-- Skipping a testcase does not make its public outcome raise. -/
theorem getPublicOutcome_ok_of_skip {kind : GroupKind} {parameter : PyValue} {x : ℚ} {text : String}
    (h : getPublicOutcome kind x parameter = .ok text) :
    ∃ text', getPublicOutcome kind 0 parameter = .ok text' := by
  cases kind with
  | groupMin => exact ⟨"Not correct", by simp [getPublicOutcome]⟩
  | groupMul => exact ⟨"Not correct", by simp [getPublicOutcome]⟩
  | groupThreshold =>
      simp only [getPublicOutcome, bind_eq_ok_iff, pure_eq_ok_iff] at h ⊢
      obtain ⟨threshold, hthreshold, -⟩ := h
      exact ⟨"Not correct", threshold, hthreshold, false,
        withinThreshold_of_nonpos threshold (le_refl 0), rfl⟩

end Grading
end ContestManagement
