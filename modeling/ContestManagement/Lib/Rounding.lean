import ContestManagement.Lib.Decimal
import Mathlib.Algebra.Order.Floor.Ring
import Mathlib.Algebra.Order.Ring.Rat
import Mathlib.Data.Int.ConditionallyCompleteOrder
import Mathlib.Tactic.FieldSimp
import Mathlib.Tactic.Linarith
import Mathlib.Tactic.Positivity

/-!
# Facts about rounding

Rounding to the nearest integer is monotone and leaves integers alone; so rounding to a number of
decimals is monotone and leaves the numbers with so many decimals alone, which are closed
under sums.
-/

namespace ContestManagement
namespace Lib
namespace Decimal

/-! ## Integers -/

theorem floor_le_roundHalfEven (q : ℚ) : ⌊q⌋ ≤ roundHalfEven q := by
  unfold roundHalfEven
  dsimp only
  split_ifs <;> omega

theorem roundHalfEven_le_floor_add_one (q : ℚ) : roundHalfEven q ≤ ⌊q⌋ + 1 := by
  unfold roundHalfEven
  dsimp only
  split_ifs <;> omega

@[simp] theorem roundHalfEven_intCast (n : ℤ) : roundHalfEven n = n := by
  unfold roundHalfEven
  simp

theorem roundHalfEven_mono : Monotone roundHalfEven := by
  intro a b hab
  rcases (Int.floor_mono hab).lt_or_eq with hlt | heq
  · have ha := roundHalfEven_le_floor_add_one a
    have hb := floor_le_roundHalfEven b
    omega
  · -- With the same integer below them, only the rest behind the point counts.
    unfold roundHalfEven
    rw [heq]
    dsimp only
    split_ifs
    all_goals first | omega | linarith

/-- A number is rounded to the integers that are less than a half away, and to the even ones that
are a half away. -/
theorem roundHalfEven_eq_iff (q : ℚ) (n : ℤ) :
    roundHalfEven q = n ↔ |q - n| < 1 / 2 ∨ (|q - n| = 1 / 2 ∧ n % 2 = 0) := by
  have hlow := Int.floor_le q
  have hhigh := Int.lt_floor_add_one q
  have hround : roundHalfEven q = if q - ⌊q⌋ < 1 / 2 then ⌊q⌋
      else if 1 / 2 < q - ⌊q⌋ then ⌊q⌋ + 1 else if ⌊q⌋ % 2 = 0 then ⌊q⌋ else ⌊q⌋ + 1 := rfl
  rw [hround]
  constructor
  · rintro rfl
    split_ifs with hless hmore heven
    · left
      rw [abs_of_nonneg (by linarith)]
      exact hless
    · left
      push_cast
      rw [abs_of_nonpos (by linarith)]
      linarith
    · right
      rw [abs_of_nonneg (by linarith)]
      exact ⟨le_antisymm (not_lt.1 hmore) (not_lt.1 hless), heven⟩
    · right
      push_cast
      rw [abs_of_nonpos (by linarith)]
      exact ⟨by linarith, by omega⟩
  · intro hnear
    have habs : |q - n| ≤ 1 / 2 := by
      rcases hnear with hless | ⟨heq, -⟩
      · exact hless.le
      · exact heq.le
    obtain ⟨habove, hbelow⟩ := abs_le.1 habs
    rcases le_or_gt (n : ℚ) q with hle | hlt
    · -- The integer is the one below the number.
      have hfloor : ⌊q⌋ = n := Int.floor_eq_iff.2 ⟨hle, by linarith⟩
      rw [hfloor]
      rw [abs_of_nonneg (by linarith)] at hnear
      rcases hnear with hless | ⟨heq, heven⟩
      · rw [if_pos hless]
      · rw [if_neg (by linarith), if_neg (by linarith), if_pos heven]
    · have hfloor : ⌊q⌋ = n - 1 := Int.floor_eq_iff.2
        ⟨by push_cast; linarith, by push_cast; linarith⟩
      rw [hfloor]
      push_cast
      rw [abs_of_nonpos (by linarith)] at hnear
      rcases hnear with hless | ⟨heq, heven⟩
      · rw [if_neg (by linarith), if_pos (by linarith), sub_add_cancel]
      · rw [if_neg (by linarith), if_neg (by linarith), if_neg (by omega), sub_add_cancel]

/-! ## Decimals -/

/-- The number has at most so many decimals. -/
def HasDecimals (digits : Nat) (q : ℚ) : Prop := ∃ n : ℤ, q = n / 10 ^ digits

variable {digits : Nat} {a b q : ℚ}

theorem hasDecimals_roundTo (digits : Nat) (q : ℚ) : HasDecimals digits (roundTo digits q) :=
  ⟨roundHalfEven (q * 10 ^ digits), rfl⟩

theorem roundTo_eq_self_iff : roundTo digits q = q ↔ HasDecimals digits q := by
  constructor
  · intro h
    rw [← h]
    exact hasDecimals_roundTo digits q
  · rintro ⟨n, rfl⟩
    have hcancel : (n : ℚ) / 10 ^ digits * 10 ^ digits = n := by
      field_simp
    rw [roundTo, hcancel, roundHalfEven_intCast]

/-- Another number is rounded to one with so many decimals when it is less than half a unit of the
last one away, or half a unit with the last one even. -/
theorem roundTo_eq_iff (hq : HasDecimals digits q) (a : ℚ) :
    roundTo digits a = q ↔ |a - q| * 10 ^ digits < 1 / 2 ∨
      (|a - q| * 10 ^ digits = 1 / 2 ∧ ⌊q * 10 ^ digits⌋ % 2 = 0) := by
  obtain ⟨n, rfl⟩ := hq
  have hpos : (0 : ℚ) < 10 ^ digits := by positivity
  have hcancel : (n : ℚ) / 10 ^ digits * 10 ^ digits = n := div_mul_cancel₀ _ hpos.ne'
  have hdistance : |a - n / 10 ^ digits| * 10 ^ digits = |a * 10 ^ digits - n| := by
    rw [← abs_of_pos hpos, ← abs_mul, sub_mul, abs_of_pos hpos, hcancel]
  rw [hdistance, hcancel, Int.floor_intCast, ← roundHalfEven_eq_iff, roundTo,
    div_left_inj' hpos.ne', Int.cast_inj]

theorem roundTo_mono (digits : Nat) : Monotone (roundTo digits) := by
  intro a b hab
  have hscaled : a * 10 ^ digits ≤ b * 10 ^ digits :=
    mul_le_mul_of_nonneg_right hab (by positivity)
  have hrounded : (roundHalfEven (a * 10 ^ digits) : ℚ) ≤ roundHalfEven (b * 10 ^ digits) := by
    exact_mod_cast roundHalfEven_mono hscaled
  exact div_le_div_of_nonneg_right hrounded (by positivity)

theorem hasDecimals_zero (digits : Nat) : HasDecimals digits 0 := ⟨0, by simp⟩

@[simp] theorem roundTo_zero (digits : Nat) : roundTo digits 0 = 0 :=
  roundTo_eq_self_iff.2 (hasDecimals_zero digits)

theorem HasDecimals.add (ha : HasDecimals digits a) (hb : HasDecimals digits b) :
    HasDecimals digits (a + b) := by
  obtain ⟨m, rfl⟩ := ha
  obtain ⟨n, rfl⟩ := hb
  exact ⟨m + n, by rw [Int.cast_add, add_div]⟩

theorem hasDecimals_sum {values : List ℚ} (h : ∀ q ∈ values, HasDecimals digits q) :
    HasDecimals digits values.sum := by
  induction values with
  | nil => exact hasDecimals_zero digits
  | cons q rest ih =>
      rw [List.forall_mem_cons] at h
      rw [List.sum_cons]
      exact h.1.add (ih h.2)

end Decimal
end Lib
end ContestManagement
