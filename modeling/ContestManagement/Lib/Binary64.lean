import Mathlib.Data.Int.Log
import ContestManagement.Lib.Rounding

/-!
# Floating-point numbers

The numbers of binary64, subnormal ones included: an integer of at most 53 bits times a power of
two from `2 ^ (-1074)` on.  An operation gives the number nearest to its exact result, and of two
the one with the even integer.

Rounding is monotone and leaves the numbers themselves alone.  Overflow is not looked at here.
-/

namespace ContestManagement
namespace Lib
namespace Binary64

/-- The exponent of the last place of a number. -/
def placeOf (q : ℚ) : ℤ := max (Int.log 2 |q| - 52) (-1074)

/-- The number nearest to another one. -/
def nearest (q : ℚ) : ℚ :=
  Decimal.roundHalfEven (q / 2 ^ placeOf q) * 2 ^ placeOf q

/-- A number of the format. -/
def Representable (q : ℚ) : Prop :=
  ∃ (m e : ℤ), |m| ≤ 2 ^ 53 ∧ -1074 ≤ e ∧ q = m * 2 ^ e

/-- `x // y`, where `x` is not negative and `y` is positive.  What remains is exact, the difference and
the quotient are rounded. -/
def floorDiv (x y : ℚ) : ℚ :=
  let quotient := nearest (nearest (x - (x - ⌊x / y⌋ * y)) / y)
  let below : ℚ := ⌊quotient⌋
  if 1 / 2 < quotient - below then below + 1 else below

variable {a b q : ℚ}

theorem two_zpow_pos (e : ℤ) : (0 : ℚ) < 2 ^ e := zpow_pos two_pos e

/-! ## Places -/

theorem placeOf_neg (q : ℚ) : placeOf (-q) = placeOf q := by rw [placeOf, abs_neg, placeOf]

theorem neg_1074_le_placeOf (q : ℚ) : -1074 ≤ placeOf q := le_max_right _ _

theorem placeOf_mono (ha : 0 < a) (hab : a ≤ b) : placeOf a ≤ placeOf b := by
  unfold placeOf
  rw [abs_of_pos ha, abs_of_pos (ha.trans_le hab)]
  exact max_le_max (sub_le_sub_right (Int.log_mono_right ha hab) 52) le_rfl

/-- A number is less than the first one with another exponent. -/
theorem abs_lt_zpow (q : ℚ) : |q| < 2 ^ (placeOf q + 53) := by
  have hlog : |q| < (2 : ℕ) ^ (Int.log 2 |q| + 1) := Int.lt_zpow_succ_log_self one_lt_two |q|
  refine hlog.trans_le ?_
  have hplace : Int.log 2 |q| - 52 ≤ placeOf q := le_max_left _ _
  push_cast
  exact zpow_le_zpow_right₀ one_le_two (by omega)

/-- The power of two from which on numbers have a larger place. -/
theorem zpow_le_of_placeOf (hq : q ≠ 0) (h : -1074 < placeOf q) :
    2 ^ (placeOf q + 52) ≤ |q| := by
  have hplace : placeOf q = Int.log 2 |q| - 52 := by
    rcases max_choice (Int.log 2 |q| - 52) (-1074) with hmax | hmax
    · exact hmax
    · rw [placeOf, hmax] at h
      exact absurd h (lt_irrefl _)
  have hlog : ((2 : ℕ) : ℚ) ^ Int.log 2 |q| ≤ |q| :=
    Int.zpow_log_le_self one_lt_two (abs_pos.2 hq)
  rw [hplace, sub_add_cancel]
  exact_mod_cast hlog

/-- The place of a number below a power of two. -/
theorem placeOf_le {k : ℤ} (hk : 0 < k) (h : |q| < 2 ^ k) : placeOf q ≤ k - 53 := by
  have hlog : Int.log 2 |q| < k := by
    rcases eq_or_ne q 0 with rfl | hq
    · simpa using hk
    · exact (Int.lt_zpow_iff_log_lt one_lt_two (abs_pos.2 hq)).1 (by exact_mod_cast h)
  exact max_le (by omega) (by omega)

/-! ## Rounding -/

@[simp] theorem nearest_zero : nearest 0 = 0 := by
  have hround : Decimal.roundHalfEven 0 = 0 := Decimal.roundHalfEven_intCast 0
  rw [nearest, zero_div, hround, Int.cast_zero, zero_mul]

/-- A multiple of the last place stays. -/
theorem nearest_mul_place {n : ℤ} (h : q = n * 2 ^ placeOf q) : nearest q = q := by
  have hpos := two_zpow_pos (placeOf q)
  have hdiv : q / 2 ^ placeOf q = n := by
    rw [div_eq_iff hpos.ne']
    exact h
  rw [nearest, hdiv, Decimal.roundHalfEven_intCast, ← h]

/-- Between two multiples of the last place. -/
theorem nearest_le {n : ℤ} (h : q ≤ n * 2 ^ placeOf q) : nearest q ≤ n * 2 ^ placeOf q := by
  have hpos := two_zpow_pos (placeOf q)
  have hround := Decimal.roundHalfEven_mono ((div_le_iff₀ hpos).2 h)
  rw [Decimal.roundHalfEven_intCast] at hround
  exact mul_le_mul_of_nonneg_right (by exact_mod_cast hround) hpos.le

theorem le_nearest {n : ℤ} (h : n * 2 ^ placeOf q ≤ q) : n * 2 ^ placeOf q ≤ nearest q := by
  have hpos := two_zpow_pos (placeOf q)
  have hround := Decimal.roundHalfEven_mono ((le_div_iff₀ hpos).2 h)
  rw [Decimal.roundHalfEven_intCast] at hround
  exact mul_le_mul_of_nonneg_right (by exact_mod_cast hround) hpos.le

/-- A power of two is a multiple of any smaller one. -/
theorem zpow_eq_mul_zpow {e f : ℤ} (h : e ≤ f) :
    ∃ n : ℤ, (2 : ℚ) ^ f = n * 2 ^ e := by
  refine ⟨2 ^ (f - e).toNat, ?_⟩
  push_cast
  rw [← zpow_natCast, ← zpow_add₀ two_ne_zero]
  congr 1
  omega

theorem nearest_nonneg (h : 0 ≤ q) : 0 ≤ nearest q := by
  have hzero : ((0 : ℤ) : ℚ) * 2 ^ placeOf q ≤ q := by simpa using h
  simpa using le_nearest hzero

theorem nearest_mono_of_pos (ha : 0 < a) (hab : a ≤ b) : nearest a ≤ nearest b := by
  rcases (placeOf_mono ha hab).eq_or_lt with heq | hlt
  · have hpos := two_zpow_pos (placeOf b)
    have hround := Decimal.roundHalfEven_mono (div_le_div_of_nonneg_right hab hpos.le)
    rw [nearest, nearest, heq]
    exact mul_le_mul_of_nonneg_right (by exact_mod_cast hround) hpos.le
  · -- The power of two between them is a multiple of both places.
    have hb : 0 < b := ha.trans_le hab
    have hlower := neg_1074_le_placeOf a
    obtain ⟨m, hm⟩ := zpow_eq_mul_zpow (show placeOf a ≤ placeOf b + 52 by omega)
    obtain ⟨n, hn⟩ := zpow_eq_mul_zpow (show placeOf b ≤ placeOf b + 52 by omega)
    have hbelow : a ≤ m * 2 ^ placeOf a := by
      rw [← hm, ← abs_of_pos ha]
      exact (abs_lt_zpow a).le.trans (zpow_le_zpow_right₀ one_le_two (by omega))
    have habove : (n : ℚ) * 2 ^ placeOf b ≤ b := by
      rw [← hn]
      have hle := zpow_le_of_placeOf hb.ne' (by omega)
      rwa [abs_of_pos hb] at hle
    calc nearest a ≤ m * 2 ^ placeOf a := nearest_le hbelow
      _ = n * 2 ^ placeOf b := by rw [← hm, hn]
      _ ≤ nearest b := le_nearest habove

theorem roundHalfEven_neg (q : ℚ) : Decimal.roundHalfEven (-q) = -Decimal.roundHalfEven q := by
  rw [Decimal.roundHalfEven_eq_iff]
  have habs : |-q - ((-Decimal.roundHalfEven q : ℤ) : ℚ)| = |q - Decimal.roundHalfEven q| := by
    push_cast
    rw [← abs_neg]
    congr 1
    ring
  rw [habs]
  refine ((Decimal.roundHalfEven_eq_iff q _).1 rfl).imp_right fun htie => ⟨htie.1, ?_⟩
  have heven := htie.2
  omega

@[simp] theorem nearest_neg (q : ℚ) : nearest (-q) = -nearest q := by
  rw [nearest, placeOf_neg, neg_div, roundHalfEven_neg, Int.cast_neg, neg_mul, ← nearest]

theorem nearest_mono : Monotone nearest := by
  intro a b hab
  rcases lt_trichotomy 0 a with hpos | rfl | hneg
  · exact nearest_mono_of_pos hpos hab
  · rw [nearest_zero]
    exact nearest_nonneg hab
  · rcases le_or_gt 0 b with hb | hb
    · have hle : nearest a ≤ 0 := by
        have hflip := nearest_nonneg (neg_nonneg.2 hneg.le)
        rw [nearest_neg] at hflip
        exact neg_nonneg.1 hflip
      exact hle.trans (nearest_nonneg hb)
    · have hflip := nearest_mono_of_pos (neg_pos.2 hb) (neg_le_neg hab)
      rw [nearest_neg, nearest_neg] at hflip
      exact neg_le_neg_iff.1 hflip

theorem abs_nearest_sub_le (q : ℚ) : |nearest q - q| ≤ 2 ^ placeOf q / 2 := by
  have hpos := two_zpow_pos (placeOf q)
  have hround : |q / 2 ^ placeOf q - Decimal.roundHalfEven (q / 2 ^ placeOf q)| ≤ 1 / 2 := by
    rcases (Decimal.roundHalfEven_eq_iff _ _).1 (rfl : Decimal.roundHalfEven (q / 2 ^ placeOf q) = _)
      with hless | hhalf
    · exact hless.le
    · exact hhalf.1.le
  have hscaled : |nearest q - q| =
      |q / 2 ^ placeOf q - Decimal.roundHalfEven (q / 2 ^ placeOf q)| * 2 ^ placeOf q := by
    rw [← abs_of_pos hpos, ← abs_mul, abs_of_pos hpos, sub_mul, div_mul_cancel₀ _ hpos.ne', abs_sub_comm]
    rfl
  rw [hscaled]
  calc _ ≤ 1 / 2 * 2 ^ placeOf q := mul_le_mul_of_nonneg_right hround hpos.le
    _ = 2 ^ placeOf q / 2 := by ring

/-! ## The numbers of the format -/

theorem nearest_of_representable (h : Representable q) : nearest q = q := by
  obtain ⟨m, e, hm, he, rfl⟩ := h
  rcases eq_or_ne m 0 with rfl | hne
  · simp
  have hpos := two_zpow_pos e
  have habs : |(m : ℚ) * 2 ^ e| = |(m : ℚ)| * 2 ^ e := by rw [abs_mul, abs_of_pos hpos]
  rcases hm.lt_or_eq with hlt | heq
  · -- The last place is not above that of the exponent.
    have hplace : placeOf (m * 2 ^ e) ≤ e := by
      by_contra hgt
      have hle := zpow_le_of_placeOf (mul_ne_zero (by exact_mod_cast hne) hpos.ne')
        (by omega : -1074 < placeOf (m * 2 ^ e))
      have hup : (2 : ℚ) ^ (e + 53) ≤ 2 ^ (placeOf (m * 2 ^ e) + 52) :=
        zpow_le_zpow_right₀ one_le_two (by omega)
      have hless : |(m : ℚ)| * 2 ^ e < 2 ^ (e + 53) := by
        rw [zpow_add₀ two_ne_zero, mul_comm ((2 : ℚ) ^ e)]
        refine mul_lt_mul_of_pos_right ?_ hpos
        exact_mod_cast hlt
      rw [habs] at hle
      exact absurd (hup.trans hle) (not_le.2 hless)
    obtain ⟨n, hn⟩ := zpow_eq_mul_zpow hplace
    refine nearest_mul_place (n := m * n) ?_
    push_cast
    rw [mul_assoc, ← hn]
  · -- A power of two has the next exponent.
    have hmag : |(m : ℚ) * 2 ^ e| = 2 ^ (e + 53) := by
      rw [habs, zpow_add₀ two_ne_zero, mul_comm]
      congr 1
      exact_mod_cast heq
    have hplace : placeOf (m * 2 ^ e) ≤ e + 1 := by
      rw [placeOf, hmag]
      have hlog : Int.log 2 ((2 : ℚ) ^ (e + 53)) = e + 53 := Int.log_zpow one_lt_two (e + 53)
      rw [hlog]
      omega
    obtain ⟨n, hn⟩ := zpow_eq_mul_zpow hplace
    obtain ⟨k, hk⟩ : ∃ k, m = 2 * k := by
      rcases abs_choice m with hc | hc
      · exact ⟨2 ^ 52, by omega⟩
      · exact ⟨-2 ^ 52, by omega⟩
    refine nearest_mul_place (n := k * n) ?_
    have hstep : (2 : ℚ) ^ (e + 1) = 2 ^ e * 2 := zpow_add_one₀ two_ne_zero e
    calc (m : ℚ) * 2 ^ e = k * 2 ^ (e + 1) := by
          rw [hstep, hk]
          push_cast
          ring
      _ = ((k * n : ℤ) : ℚ) * 2 ^ placeOf (m * 2 ^ e) := by rw [hn, Int.cast_mul, mul_assoc]

theorem representable_nearest (q : ℚ) : Representable (nearest q) := by
  refine ⟨Decimal.roundHalfEven (q / 2 ^ placeOf q), placeOf q, ?_, neg_1074_le_placeOf q, rfl⟩
  have hpos := two_zpow_pos (placeOf q)
  have hless : |q / 2 ^ placeOf q| < 2 ^ 53 := by
    rw [abs_div, abs_of_pos hpos, div_lt_iff₀ hpos, mul_comm, ← zpow_natCast, ← zpow_add₀ two_ne_zero]
    exact abs_lt_zpow q
  obtain ⟨hlow, hhigh⟩ := abs_lt.1 hless
  have hup := Decimal.roundHalfEven_mono hhigh.le
  have hdown := Decimal.roundHalfEven_mono hlow.le
  have hcast : ((2 : ℚ) ^ 53) = ((2 ^ 53 : ℤ) : ℚ) := by norm_num
  rw [hcast, Decimal.roundHalfEven_intCast] at hup
  rw [hcast, ← Int.cast_neg, Decimal.roundHalfEven_intCast] at hdown
  exact abs_le.2 ⟨hdown, hup⟩

@[simp] theorem nearest_nearest (q : ℚ) : nearest (nearest q) = nearest q :=
  nearest_of_representable (representable_nearest q)

/-- A number of the format is a multiple of the last place of any power of two below it. -/
theorem Representable.eq_mul_zpow (h : Representable q) {k : ℤ} (hk : (2 : ℚ) ^ k ≤ |q|) :
    ∃ n : ℤ, q = n * 2 ^ (k - 52) := by
  have hpos : 0 < |q| := (two_zpow_pos k).trans_le hk
  have hlog : k ≤ Int.log 2 |q| := (Int.zpow_le_iff_le_log one_lt_two hpos).1 (by exact_mod_cast hk)
  have hplace : k - 52 ≤ placeOf q := (sub_le_sub_right hlog 52).trans (le_max_left _ _)
  obtain ⟨n, hn⟩ := zpow_eq_mul_zpow hplace
  refine ⟨Decimal.roundHalfEven (q / 2 ^ placeOf q) * n, ?_⟩
  calc q = nearest q := (nearest_of_representable h).symm
    _ = Decimal.roundHalfEven (q / 2 ^ placeOf q) * 2 ^ placeOf q := rfl
    _ = _ := by rw [hn, Int.cast_mul, mul_assoc]

theorem representable_intCast {n : ℤ} (h : |n| ≤ 2 ^ 53) : Representable n :=
  ⟨n, 0, h, by omega, by simp⟩

/-- Where the multiple of the divisor is a number, the quotient is the exact one. -/
theorem floorDiv_eq {x y : ℚ} (hy : 0 < y) (hquotient : |⌊x / y⌋| ≤ 2 ^ 53)
    (hmultiple : Representable (⌊x / y⌋ * y)) : floorDiv x y = ⌊x / y⌋ := by
  have hexact : nearest (nearest (x - (x - ⌊x / y⌋ * y)) / y) = ⌊x / y⌋ := by
    rw [sub_sub_cancel, nearest_of_representable hmultiple, mul_div_cancel_right₀ _ hy.ne']
    exact nearest_of_representable (representable_intCast hquotient)
  unfold floorDiv
  rw [hexact]
  dsimp only
  rw [Int.floor_intCast, sub_self, if_neg (by norm_num)]

end Binary64
end Lib
end ContestManagement
