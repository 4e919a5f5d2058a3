import ContestManagement.Lib.Binary64
import ContestManagement.Lib.Decimal

/-!
# Arithmetic with floats

The exact result of an operation is rounded to the nearest number of binary64, and is infinite
where that is out of range.  Zero times an infinity is not a number, and not-a-number is neither
below nor above anything.  The sign of a zero is not kept.
-/

namespace ContestManagement
namespace Lib
namespace PyFloat

open Binary64

/-! ## Operations -/

/-- What is rounded to this, or to more, is out of range. -/
def range : ℚ := 2 ^ 1024

/-- The float nearest to a number. -/
def ofRat (q : ℚ) : PyFloat :=
  if |nearest q| < range then .finite (nearest q) else .infinite (q < 0)

/-- The float for an exact value. -/
def rounded : PyFloat → PyFloat
  | .finite q => ofRat q
  | x => x

protected def mul : PyFloat → PyFloat → PyFloat
  | .finite a, .finite b => ofRat (a * b)
  | .finite a, .infinite negative => if a = 0 then .nan else .infinite (negative != decide (a < 0))
  | .infinite negative, .finite b => if b = 0 then .nan else .infinite (negative != decide (b < 0))
  | .infinite negative, .infinite negative' => .infinite (negative != negative')
  | .nan, _ => .nan
  | .finite _, .nan => .nan
  | .infinite _, .nan => .nan

protected def add : PyFloat → PyFloat → PyFloat
  | .finite a, .finite b => ofRat (a + b)
  | .finite _, .infinite negative => .infinite negative
  | .infinite negative, .finite _ => .infinite negative
  | .infinite negative, .infinite negative' =>
      if negative = negative' then .infinite negative else .nan
  | .nan, _ => .nan
  | .finite _, .nan => .nan
  | .infinite _, .nan => .nan

protected def le : PyFloat → PyFloat → Prop
  | .finite a, .finite b => a ≤ b
  | .finite _, .infinite negative => negative = false
  | .infinite negative, .finite _ => negative = true
  | .infinite negative, .infinite negative' => negative = true ∨ negative' = false
  | .nan, _ => False
  | .finite _, .nan => False
  | .infinite _, .nan => False

protected def lt : PyFloat → PyFloat → Prop
  | .finite a, .finite b => a < b
  | .finite _, .infinite negative => negative = false
  | .infinite negative, .finite _ => negative = true
  | .infinite negative, .infinite negative' => negative = true ∧ negative' = false
  | .nan, _ => False
  | .finite _, .nan => False
  | .infinite _, .nan => False

instance : Mul PyFloat := ⟨PyFloat.mul⟩

instance : Add PyFloat := ⟨PyFloat.add⟩

instance : LE PyFloat := ⟨PyFloat.le⟩

instance : LT PyFloat := ⟨PyFloat.lt⟩

instance : OfNat PyFloat 0 := ⟨.finite 0⟩

instance : OfNat PyFloat 1 := ⟨.finite 1⟩

instance : DecidableLE PyFloat
  | .finite a, .finite b => inferInstanceAs (Decidable (a ≤ b))
  | .finite _, .infinite negative => inferInstanceAs (Decidable (negative = false))
  | .infinite negative, .finite _ => inferInstanceAs (Decidable (negative = true))
  | .infinite negative, .infinite negative' =>
      inferInstanceAs (Decidable (negative = true ∨ negative' = false))
  | .nan, _ => isFalse id
  | .finite _, .nan => isFalse id
  | .infinite _, .nan => isFalse id

instance : DecidableLT PyFloat
  | .finite a, .finite b => inferInstanceAs (Decidable (a < b))
  | .finite _, .infinite negative => inferInstanceAs (Decidable (negative = false))
  | .infinite negative, .finite _ => inferInstanceAs (Decidable (negative = true))
  | .infinite negative, .infinite negative' =>
      inferInstanceAs (Decidable (negative = true ∧ negative' = false))
  | .nan, _ => isFalse id
  | .finite _, .nan => isFalse id
  | .infinite _, .nan => isFalse id

/-- `round` to a number of decimals. -/
def roundTo (decimals : Nat) : PyFloat → PyFloat
  | .finite q => ofRat (Decimal.roundTo decimals q)
  | x => x

/-- The `%g` conversion. -/
def formatG : PyFloat → String
  | .finite q => Decimal.formatG q
  | .infinite negative => if negative then "-inf" else "inf"
  | .nan => "nan"

/-- The comparison with an exact number. -/
def atMost (x : PyFloat) (bound : ℚ) : Bool := x ≤ .finite bound

/-- The product of numbers, from the first one on. -/
def product : List PyFloat → PyFloat
  | [] => 1
  | x :: rest => rest.foldl (· * ·) x

/-! ## The order -/

variable {x y z : PyFloat} {a b q : ℚ}

@[simp] theorem finite_le_finite : finite a ≤ finite b ↔ a ≤ b := Iff.rfl

protected theorem le_refl (hx : x ≠ nan) : x ≤ x := by
  cases x with
  | nan => exact absurd rfl hx
  | finite a => exact finite_le_finite.2 le_rfl
  | infinite negative =>
      show negative = true ∨ negative = false
      cases negative <;> simp

protected theorem le_trans (hxy : x ≤ y) (hyz : y ≤ z) : x ≤ z := by
  cases x with
  | nan => cases hxy
  | finite a =>
      cases y with
      | nan => cases hxy
      | finite b =>
          cases z with
          | nan => cases hyz
          | finite c => exact le_trans (finite_le_finite.1 hxy) (finite_le_finite.1 hyz)
          | infinite negative => exact hyz
      | infinite negative =>
          obtain rfl : negative = false := hxy
          cases z with
          | nan => cases hyz
          | finite c => cases hyz
          | infinite negative' =>
              rcases hyz with hyz | hyz
              · cases hyz
              · exact hyz
  | infinite negative =>
      cases y with
      | nan => cases hxy
      | finite b =>
          obtain rfl : negative = true := hxy
          cases z with
          | nan => cases hyz
          | finite c => rfl
          | infinite negative' => exact .inl rfl
      | infinite negative' =>
          cases z with
          | nan => cases hyz
          | finite c =>
              obtain rfl : negative' = true := hyz
              rcases hxy with hxy | hxy
              · exact hxy
              · cases hxy
          | infinite negative'' =>
              rcases hxy with hxy | rfl
              · exact .inl hxy
              · rcases hyz with hyz | hyz
                · cases hyz
                · exact .inr hyz

/-- Numbers can be compared. -/
theorem lt_iff_not_le (hx : x ≠ nan) (hy : y ≠ nan) : x < y ↔ ¬y ≤ x := by
  cases x with
  | nan => exact absurd rfl hx
  | finite a =>
      cases y with
      | nan => exact absurd rfl hy
      | finite b =>
          show a < b ↔ ¬b ≤ a
          exact not_le.symm
      | infinite negative =>
          show negative = false ↔ ¬negative = true
          simp
  | infinite negative =>
      cases y with
      | nan => exact absurd rfl hy
      | finite b =>
          show negative = true ↔ ¬negative = false
          simp
      | infinite negative' =>
          show negative = true ∧ negative' = false ↔ ¬(negative' = true ∨ negative = false)
          cases negative <;> cases negative' <;> simp

theorem ne_nan_of_lt (h : x < y) : x ≠ nan ∧ y ≠ nan := by
  constructor
  · rintro rfl
    exact h
  · rintro rfl
    cases x <;> exact h

theorem ne_nan_of_nonneg (h : 0 ≤ x) : x ≠ nan := by
  rintro rfl
  exact h

protected theorem lt_of_lt_of_le (hxy : x < y) (hyz : y ≤ z) : x < z := by
  obtain ⟨hx, hy⟩ := ne_nan_of_lt hxy
  have hz : z ≠ nan := by
    rintro rfl
    cases y <;> exact hyz
  rw [lt_iff_not_le hx hy] at hxy
  rw [lt_iff_not_le hx hz]
  exact fun hzx => hxy (PyFloat.le_trans hyz hzx)

protected theorem lt_of_le_of_lt (hxy : x ≤ y) (hyz : y < z) : x < z := by
  obtain ⟨hy, hz⟩ := ne_nan_of_lt hyz
  have hx : x ≠ nan := by
    rintro rfl
    exact hxy
  rw [lt_iff_not_le hy hz] at hyz
  rw [lt_iff_not_le hx hz]
  exact fun hzx => hyz (PyFloat.le_trans hzx hxy)

protected theorem le_of_not_lt (hx : x ≠ nan) (hy : y ≠ nan) (h : ¬x < y) : y ≤ x := by
  rw [lt_iff_not_le hx hy, not_not] at h
  exact h

protected theorem le_of_lt (h : x < y) : x ≤ y := by
  cases x with
  | nan => cases h
  | finite a =>
      cases y with
      | nan => cases h
      | finite b => exact (show a < b from h).le
      | infinite negative => exact h
  | infinite negative =>
      cases y with
      | nan => cases h
      | finite b => exact h
      | infinite negative' => exact .inl h.1

/-- What is not at most zero is above it, or no number. -/
theorem not_nonpos_iff : ¬x ≤ 0 ↔ 0 < x ∨ x = nan := by
  cases x with
  | nan => exact ⟨fun _ => .inr rfl, fun _ h => h⟩
  | finite q =>
      show ¬q ≤ 0 ↔ 0 < q ∨ _
      simp
  | infinite negative =>
      show ¬negative = true ↔ negative = false ∨ _
      simp

theorem not_pos_nan : ¬0 < nan := id

theorem zero_nonpos : (0 : PyFloat) ≤ 0 := finite_le_finite.2 le_rfl

theorem not_one_nonpos : ¬(1 : PyFloat) ≤ 0 := by decide

/-! ## Rounding -/

theorem one_lt_range : 1 < range := one_lt_pow₀ one_lt_two (by decide)

theorem ofRat_of_representable (h : Representable q) (hrange : |q| < range) :
    ofRat q = finite q := by
  rw [ofRat, nearest_of_representable h, if_pos hrange]

theorem ofRat_mono (h : a ≤ b) : ofRat a ≤ ofRat b := by
  have hnear : nearest a ≤ nearest b := nearest_mono h
  unfold ofRat
  split
  case isTrue ha =>
    split
    case isTrue => exact hnear
    case isFalse hb =>
      -- Only a large positive number is out of range above one that is not.
      show decide (b < 0) = false
      rw [decide_eq_false_iff_not]
      intro hneg
      have hle : nearest b ≤ 0 := nearest_zero ▸ nearest_mono hneg.le
      rw [abs_of_nonpos hle] at hb
      rw [abs_of_nonpos (hnear.trans hle)] at ha
      linarith
  case isFalse ha =>
    split
    case isTrue hb =>
      -- Below a number in range only a large negative one is out of range.
      show decide (a < 0) = true
      rw [decide_eq_true_eq]
      by_contra hneg
      have hle := nearest_nonneg (not_lt.1 hneg)
      rw [abs_of_nonneg hle] at ha
      rw [abs_of_nonneg (hle.trans hnear)] at hb
      linarith
    case isFalse =>
      show decide (a < 0) = true ∨ decide (b < 0) = false
      rw [decide_eq_true_eq, decide_eq_false_iff_not]
      by_cases hneg : a < 0
      · exact .inl hneg
      · exact .inr fun hb => hneg (h.trans_lt hb)

/-! ## Products -/

@[simp] theorem finite_mul_finite : finite a * finite b = ofRat (a * b) := rfl

@[simp] theorem nan_mul : nan * x = nan := by cases x <;> rfl

theorem infinite_mul_zero (negative : Bool) : infinite negative * finite 0 = nan := rfl

theorem infinite_mul_infinite (negative negative' : Bool) :
    infinite negative * infinite negative' = infinite (negative != negative') := rfl

theorem infinite_mul_finite (negative : Bool) (h : q ≠ 0) :
    infinite negative * finite q = infinite (negative != decide (q < 0)) := if_neg h

theorem foldl_nan (xs : List PyFloat) : xs.foldl (· * ·) nan = nan := by
  induction xs with
  | nil => rfl
  | cons x rest ih => rw [List.foldl_cons, nan_mul, ih]

/-- From an infinity of the right sign on, a product is never at most zero. -/
theorem exists_infinite_foldl (xs : List PyFloat) :
    ∃ negative, ¬xs.foldl (· * ·) (infinite negative) ≤ 0 := by
  induction xs with
  | nil => exact ⟨false, by decide⟩
  | cons x rest ih =>
      obtain ⟨negative, hrest⟩ := ih
      -- Where the factor makes the product no number, it stays so.
      have hnan : infinite false * x = nan →
          ∃ negative, ¬(x :: rest).foldl (· * ·) (infinite negative) ≤ 0 := by
        intro hmul
        refine ⟨false, ?_⟩
        rw [List.foldl_cons, hmul, foldl_nan]
        exact id
      cases x with
      | nan => exact hnan rfl
      | finite q =>
          by_cases hzero : q = 0
          · exact hnan (hzero ▸ infinite_mul_zero false)
          · -- The sign that the rest needs, turned round where this factor turns it.
            refine ⟨negative != decide (q < 0), ?_⟩
            rw [List.foldl_cons, infinite_mul_finite _ hzero, Bool.bne_assoc, bne_self_eq_false,
              Bool.bne_false]
            exact hrest
      | infinite negative' =>
          refine ⟨negative != negative', ?_⟩
          rw [List.foldl_cons, infinite_mul_infinite, Bool.bne_assoc, bne_self_eq_false,
            Bool.bne_false]
          exact hrest

/-! ### Factors of the unit interval -/

/-- A number of the format from zero to one. -/
def InUnit (x : PyFloat) : Prop :=
  ∃ q, x = finite q ∧ Representable q ∧ 0 ≤ q ∧ q ≤ 1

theorem inUnit_zero : InUnit 0 := ⟨0, rfl, ⟨0, 0, by norm_num⟩, le_rfl, zero_le_one⟩

theorem InUnit.nonneg (h : InUnit x) : 0 ≤ x := by
  obtain ⟨q, rfl, -, hnonneg, -⟩ := h
  exact finite_le_finite.2 hnonneg

theorem inUnit_one : InUnit 1 := ⟨1, rfl, ⟨1, 0, by norm_num⟩, zero_le_one, le_rfl⟩

theorem ofRat_of_unit (hnonneg : 0 ≤ q) (hone : q ≤ 1) :
    ofRat q = finite (nearest q) ∧ 0 ≤ nearest q ∧ nearest q ≤ 1 := by
  have hone' : nearest (1 : ℚ) = 1 := by
    have hrepresentable := representable_intCast (n := 1) (by norm_num)
    rw [Int.cast_one] at hrepresentable
    exact nearest_of_representable hrepresentable
  have hle : nearest q ≤ 1 := hone' ▸ nearest_mono hone
  have hge := nearest_nonneg hnonneg
  refine ⟨?_, hge, hle⟩
  rw [ofRat, if_pos]
  rw [abs_of_nonneg hge]
  exact hle.trans_lt one_lt_range

theorem inUnit_ofRat (hnonneg : 0 ≤ q) (hone : q ≤ 1) : InUnit (ofRat q) := by
  obtain ⟨heq, hge, hle⟩ := ofRat_of_unit hnonneg hone
  exact ⟨nearest q, heq, representable_nearest q, hge, hle⟩

theorem InUnit.mul (hx : InUnit x) (hy : InUnit y) : InUnit (x * y) ∧ x * y ≤ x := by
  obtain ⟨a, rfl, ha, ha0, ha1⟩ := hx
  obtain ⟨b, rfl, -, hb0, hb1⟩ := hy
  have hprod0 : 0 ≤ a * b := mul_nonneg ha0 hb0
  have hle : a * b ≤ a := mul_le_of_le_one_right ha0 hb1
  refine ⟨inUnit_ofRat hprod0 (hle.trans ha1), ?_⟩
  rw [finite_mul_finite, (ofRat_of_unit hprod0 (hle.trans ha1)).1, finite_le_finite]
  calc nearest (a * b) ≤ nearest a := nearest_mono hle
    _ = a := nearest_of_representable ha

theorem InUnit.mul_mono (hx : InUnit x) (hy : InUnit y) (hz : InUnit z) (h : x ≤ y) :
    x * z ≤ y * z := by
  obtain ⟨a, rfl, -, ha0, ha1⟩ := hx
  obtain ⟨b, rfl, -, hb0, hb1⟩ := hy
  obtain ⟨c, rfl, -, hc0, hc1⟩ := hz
  exact ofRat_mono (mul_le_mul_of_nonneg_right (finite_le_finite.1 h) hc0)

/-- More factors of the unit interval, wherever they stand, do not make a product larger. -/
theorem foldl_le_of_sublist {xs ys : List PyFloat} (hsub : xs.Sublist ys)
    (hys : ∀ y ∈ ys, InUnit y) (hx : InUnit x) (hy : InUnit y) (h : y ≤ x) :
    ys.foldl (· * ·) y ≤ xs.foldl (· * ·) x := by
  induction hsub generalizing x y with
  | slnil => exact h
  | cons z _ ih =>
      -- A factor that only the longer product has.
      have hz := hys z (by simp)
      rw [List.foldl_cons]
      exact ih (fun w hw => hys w (by simp [hw])) hx (hy.mul hz).1
        (PyFloat.le_trans (hy.mul hz).2 h)
  | cons_cons z _ ih =>
      have hz := hys z (by simp)
      rw [List.foldl_cons, List.foldl_cons]
      exact ih (fun w hw => hys w (by simp [hw])) (hx.mul hz).1 (hy.mul hz).1 (hy.mul_mono hx hz h)

theorem InUnit.one_mul (hx : InUnit x) : 1 * x = x := by
  obtain ⟨q, rfl, hrepresentable, hnonneg, hone⟩ := hx
  show ofRat (1 * q) = finite q
  rw [one_mul q]
  exact ofRat_of_representable hrepresentable
    (by rw [abs_of_nonneg hnonneg]; exact hone.trans_lt one_lt_range)

theorem product_eq_foldl {xs : List PyFloat} (h : ∀ x ∈ xs, InUnit x) :
    product xs = xs.foldl (· * ·) 1 := by
  cases xs with
  | nil => rfl
  | cons x rest => rw [product, List.foldl_cons, (h x List.mem_cons_self).one_mul]

theorem product_le_of_sublist {xs ys : List PyFloat} (hsub : xs.Sublist ys)
    (hys : ∀ y ∈ ys, InUnit y) : product ys ≤ product xs := by
  rw [product_eq_foldl hys, product_eq_foldl fun x hx => hys x (hsub.subset hx)]
  exact foldl_le_of_sublist hsub hys inUnit_one inUnit_one (finite_le_finite.2 le_rfl)

end PyFloat
end Lib
end ContestManagement
