import ContestManagement.Lib.Binary64

/-!
# Times of Python

A `datetime` is counted in microseconds since 1970, a `timedelta` in microseconds.
-/

namespace ContestManagement
namespace Common

open Lib

/-- The times of `datetime`, from the year 1 to the end of the year 9999. -/
def IsDatetime (time : ℤ) : Prop := -62135596800000000 ≤ time ∧ time ≤ 253402300799999999

instance (time : ℤ) : Decidable (IsDatetime time) := inferInstanceAs (Decidable (_ ∧ _))

/-- `total_seconds`: a floating-point number. -/
def totalSeconds (duration : ℤ) : ℚ := Binary64.nearest (duration / 1000000)

/-- Less than 544 years are counted well enough to tell the whole seconds. -/
theorem floor_totalSeconds {duration : ℤ} (hnonneg : 0 ≤ duration)
    (hsmall : duration < 2 ^ 34 * 1000000) : ⌊totalSeconds duration⌋ = duration / 1000000 := by
  have hwhole : |duration / 1000000| ≤ 2 ^ 53 := by
    rw [abs_of_nonneg (by omega)]
    omega
  have hsplit : (duration : ℚ) = 1000000 * (duration / 1000000 : ℤ) + (duration % 1000000 : ℤ) := by
    exact_mod_cast (Int.mul_ediv_add_emod duration 1000000).symm
  have hrest : 0 ≤ ((duration % 1000000 : ℤ) : ℚ) ∧ ((duration % 1000000 : ℤ) : ℚ) ≤ 999999 :=
    ⟨by exact_mod_cast (by omega : 0 ≤ duration % 1000000),
      by exact_mod_cast (by omega : duration % 1000000 ≤ 999999)⟩
  have hlimit : |(duration : ℚ) / 1000000| < 2 ^ (34 : ℤ) := by
    rw [abs_of_nonneg (by positivity), div_lt_iff₀ (by norm_num)]
    exact_mod_cast hsmall
  rw [Int.floor_eq_iff]
  constructor
  · rw [← Binary64.nearest_of_representable (Binary64.representable_intCast hwhole)]
    refine Binary64.nearest_mono ?_
    linarith
  · -- The next second is further than half of the last place.
    have herror := (abs_le.1 (Binary64.abs_nearest_sub_le (duration / 1000000 : ℚ))).2
    have hplace : (2 : ℚ) ^ Binary64.placeOf (duration / 1000000) ≤ 2 ^ (-19 : ℤ) :=
      zpow_le_zpow_right₀ one_le_two (Binary64.placeOf_le (by norm_num) hlimit)
    have hvalue : (2 : ℚ) ^ (-19 : ℤ) = 1 / 524288 := by norm_num
    unfold totalSeconds
    linarith

/-- Whole seconds are whole numbers. -/
theorem totalSeconds_seconds {seconds : ℤ} (h : |seconds| ≤ 2 ^ 53) :
    totalSeconds (1000000 * seconds) = seconds := by
  have hdiv : ((1000000 * seconds : ℤ) : ℚ) / 1000000 = seconds := by
    push_cast
    exact mul_div_cancel_left₀ _ (by norm_num)
  rw [totalSeconds, hdiv]
  exact Binary64.nearest_of_representable (Binary64.representable_intCast h)

/-- By whole seconds a time is divided exactly, up to 544 years. -/
theorem floorDiv_totalSeconds {duration seconds : ℤ} (hnonneg : 0 ≤ duration)
    (hsmall : duration < 2 ^ 34 * 1000000) (hpos : 0 < seconds) (hseconds : seconds ≤ 2 ^ 53) :
    Binary64.floorDiv (totalSeconds duration) (totalSeconds (1000000 * seconds)) =
      (duration / (1000000 * seconds) : ℤ) := by
  have hsec : 0 < (seconds : ℚ) := by exact_mod_cast hpos
  have hfloor : ⌊totalSeconds duration / seconds⌋ = duration / (1000000 * seconds) := by
    rw [← Int.ediv_ediv_of_nonneg (by norm_num), ← floor_totalSeconds hnonneg hsmall]
    obtain ⟨n, rfl⟩ := Int.eq_ofNat_of_zero_le hpos.le
    exact Int.floor_div_natCast _ n
  have hle : duration / (1000000 * seconds) * seconds ≤ 2 ^ 53 := by
    rw [← Int.ediv_ediv_of_nonneg (by norm_num)]
    have hmul := Int.ediv_mul_le (duration / 1000000) hpos.ne'
    omega
  have hquotient : 0 ≤ duration / (1000000 * seconds) := Int.ediv_nonneg hnonneg (by omega)
  rw [totalSeconds_seconds (by rwa [abs_of_pos hpos]), ← hfloor]
  refine Binary64.floorDiv_eq hsec ?_ ?_
  · rw [hfloor, abs_of_nonneg hquotient]
    exact (le_mul_of_one_le_right hquotient (by omega)).trans hle
  · rw [hfloor]
    have hmultiple := Int.mul_nonneg hquotient hpos.le
    exact_mod_cast Binary64.representable_intCast (by rwa [abs_of_nonneg hmultiple])

end Common
end ContestManagement
