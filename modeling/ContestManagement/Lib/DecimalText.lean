import ContestManagement.Lib.Rounding
import Mathlib.Algebra.Order.Field.Power
import Mathlib.Data.List.TakeWhile

/-!
# Reading `%g`

The text that `formatG` writes is read back as the number rounded to six significant digits.  That
rounding is monotone.
-/

namespace ContestManagement
namespace Lib
namespace Decimal

/-! ## Digits -/

theorem digitsValue_eq (digits : List Char) : digitsValue digits = Nat.ofDigitChars 10 digits 0 :=
  Nat.ofDigitChars_eq_foldl.symm

theorem length_digitsOf (count n : Nat) : (digitsOf count n).length = count := by
  induction count generalizing n with
  | zero => rfl
  | succ count ih => rw [digitsOf, List.length_append, ih, List.length_singleton]

theorem lt_of_mem_digitsOf {count n d : Nat} (h : d ∈ digitsOf count n) : d < 10 := by
  induction count generalizing n with
  | zero => cases h
  | succ count ih =>
      rw [digitsOf, List.mem_append, List.mem_singleton] at h
      rcases h with h | rfl
      · exact ih h
      · exact Nat.mod_lt n (by decide)

theorem digitText_append (first second : List Nat) :
    digitText (first ++ second) = digitText first ++ digitText second :=
  List.map_append

theorem digitsValue_digitsOf (count n : Nat) :
    digitsValue (digitText (digitsOf count n)) = n % 10 ^ count := by
  rw [digitsValue_eq]
  induction count generalizing n with
  | zero => simp [digitsOf, digitText, Nat.mod_one]
  | succ count ih =>
      have hlast : digitText [n % 10] = [(n % 10).digitChar] := rfl
      rw [digitsOf, digitText_append, Nat.ofDigitChars_append, ih, hlast,
        Nat.ofDigitChars_cons_digitChar_of_lt_ten (Nat.mod_lt n (by decide)), Nat.ofDigitChars_nil,
        pow_succ', Nat.mod_mul]
      omega

theorem isDigit_of_mem_digitText {digits : List Nat} (h : ∀ d ∈ digits, d < 10) :
    ∀ c ∈ digitText digits, c.isDigit = true := by
  intro c hc
  obtain ⟨d, hd, rfl⟩ := List.mem_map.1 hc
  rw [Nat.isDigit_digitChar, decide_eq_true_eq]
  exact h d hd

theorem stripZeros_spec (digits : List Nat) :
    ∃ count, digits = stripZeros digits ++ List.replicate count 0 := by
  refine ⟨(digits.reverse.takeWhile (· = 0)).length, ?_⟩
  have hzeros : (digits.reverse.takeWhile (· = 0)).reverse =
      List.replicate (digits.reverse.takeWhile (· = 0)).length 0 := by
    rw [List.eq_replicate_iff]
    refine ⟨List.length_reverse, fun d hd => ?_⟩
    simpa using List.mem_takeWhile_imp (List.mem_reverse.1 hd)
  rw [← hzeros, stripZeros, ← List.reverse_append, List.takeWhile_append_dropWhile,
    List.reverse_reverse]

/-- The zeros at the end do not count. -/
theorem value_stripZeros (whole fraction : List Nat) (exponent : ℤ) :
    (digitsValue (digitText whole ++ digitText (stripZeros fraction)) : ℚ) *
        10 ^ (exponent - (stripZeros fraction).length) =
      digitsValue (digitText whole ++ digitText fraction) * 10 ^ (exponent - fraction.length) := by
  obtain ⟨count, hcount⟩ := stripZeros_spec fraction
  generalize stripZeros fraction = kept at hcount ⊢
  subst hcount
  have hzeros : digitText (List.replicate count 0) = List.replicate count '0' := by
    rw [digitText, List.map_replicate]
    rfl
  have hvalue : digitsValue (digitText whole ++ digitText (kept ++ List.replicate count 0)) =
      10 ^ count * digitsValue (digitText whole ++ digitText kept) := by
    rw [digitText_append, hzeros, ← List.append_assoc, digitsValue_eq, Nat.ofDigitChars_append,
      Nat.ofDigitChars_replicate_zero, digitsValue_eq]
  have hexponent : exponent - (kept.length : ℤ) =
      count + (exponent - ((kept ++ List.replicate count 0).length : ℤ)) := by
    rw [List.length_append, List.length_replicate]
    omega
  rw [hvalue, hexponent, zpow_add₀ (by norm_num), zpow_natCast]
  push_cast
  ring

/-! ## Reading a number without a sign -/

theorem takeWhile_digits {digits tail : List Char} (h : ∀ c ∈ digits, c.isDigit = true)
    (htail : ∀ c ∈ tail.head?, c.isDigit = false) :
    (digits ++ tail).takeWhile Char.isDigit = digits ∧
      (digits ++ tail).dropWhile Char.isDigit = tail := by
  have hnone : tail.takeWhile Char.isDigit = [] ∧ tail.dropWhile Char.isDigit = tail := by
    cases tail with
    | nil => exact ⟨rfl, rfl⟩
    | cons c rest =>
        have hc := htail c rfl
        constructor
        · rw [List.takeWhile_cons_of_neg (by simp [hc])]
        · rw [List.dropWhile_cons_of_neg (by simp [hc])]
  rw [List.takeWhile_append_of_pos h, List.dropWhile_append_of_pos h, hnone.1, hnone.2,
    List.append_nil]
  exact ⟨rfl, rfl⟩

theorem splitSign_of_isDigit {text : List Char} (h : ∀ c ∈ text.head?, c.isDigit = true) :
    splitSign text = (false, text) := by
  unfold splitSign
  split
  · exact absurd (h '-' rfl) (by decide)
  · exact absurd (h '+' rfl) (by decide)
  · rfl

/-- A number with a point and an exponent. -/
theorem parsePlain_withPoint {whole fraction : List Nat} (hwhole : ∀ d ∈ whole, d < 10)
    (hfraction : ∀ d ∈ fraction, d < 10) (hne : whole ≠ []) {tail : List Char}
    (htail : ∀ c ∈ tail.head?, c.isDigit = false ∧ c ≠ '.') {exponent : ℤ}
    (hexponent : parseExponent tail = some exponent) :
    parsePlain (withPoint whole fraction ++ tail) =
      some ((digitsValue (digitText whole ++ digitText fraction) : ℚ) *
        10 ^ (exponent - fraction.length)) := by
  have hdigits := isDigit_of_mem_digitText hwhole
  have hkept : ∀ d ∈ stripZeros fraction, d < 10 := by
    intro d hd
    obtain ⟨count, hcount⟩ := stripZeros_spec fraction
    apply hfraction
    rw [hcount]
    exact List.mem_append_left _ hd
  have hneText : digitText whole ≠ [] := by
    rw [digitText, ne_eq, List.map_eq_nil_iff]
    exact hne
  have hsign : ∀ rest, splitSign (digitText whole ++ rest) = (false, digitText whole ++ rest) := by
    intro rest
    apply splitSign_of_isDigit
    intro c hc
    rw [List.head?_append_of_ne_nil _ hneText] at hc
    exact hdigits c (List.mem_of_mem_head? hc)
  rw [← value_stripZeros whole fraction]
  unfold withPoint
  split
  · rename_i hnil
    have htailDigits := takeWhile_digits hdigits fun c hc => (htail c hc).1
    rw [parsePlain, hsign]
    simp only [htailDigits.1, htailDigits.2]
    cases tail with
    | nil => simp [hne, hexponent, hnil, digitText]
    | cons c rest =>
        have hc : c ≠ '.' := (htail c rfl).2
        simp [hne, hexponent, hnil, digitText, hc]
  · rename_i hsome
    have hpoint : ∀ c ∈ ('.' :: (digitText (stripZeros fraction) ++ tail)).head?,
        c.isDigit = false := by
      rintro c ⟨⟩
      decide
    have hwholeDigits := takeWhile_digits hdigits hpoint
    have hfractionDigits := takeWhile_digits (isDigit_of_mem_digitText hkept)
      fun c hc => (htail c hc).1
    rw [List.append_assoc, List.cons_append, parsePlain, hsign]
    simp only [hwholeDigits.1, hwholeDigits.2, hfractionDigits.1, hfractionDigits.2]
    simp [hne, hexponent, digitText]

/-! ## The exponent -/

theorem parseExponent_exponentText (exponent : ℤ) :
    parseExponent (exponentText exponent) = some exponent := by
  have hdigits : ∀ c ∈ Nat.toDigits 10 exponent.natAbs, c.isDigit = true :=
    fun c hc => Nat.isDigit_of_mem_toDigits (by decide) (by decide) hc
  have hvalue : digitsValue (Nat.toDigits 10 exponent.natAbs) = exponent.natAbs := by
    rw [digitsValue_eq]
    exact Nat.ofDigitChars_toDigits (by decide) (by decide)
  -- At least two digits, the first of which may be a zero.
  obtain ⟨digits, htext, hall, hread, hne⟩ : ∃ digits,
      exponentText exponent = ['e', if exponent < 0 then '-' else '+'] ++ digits ∧
        (∀ c ∈ digits, c.isDigit = true) ∧ digitsValue digits = exponent.natAbs ∧ digits ≠ [] := by
    refine ⟨_, rfl, ?_, ?_, ?_⟩
    · split
      · intro c hc
        rcases List.mem_cons.1 hc with rfl | hc
        · decide
        · exact hdigits c hc
      · exact hdigits
    · split
      · rw [digitsValue_eq, Nat.ofDigitChars_cons]
        rw [digitsValue_eq] at hvalue
        simp [hvalue]
      · exact hvalue
    · split
      · exact List.cons_ne_nil _ _
      · exact Nat.toDigits_ne_nil
  rw [htext]
  by_cases hneg : exponent < 0
  · rw [if_pos hneg]
    simpa [parseExponent, splitSign, hread, hne, abs_of_neg hneg] using hall
  · rw [if_neg hneg]
    simpa [parseExponent, splitSign, hread, hne, abs_of_nonneg (not_lt.1 hneg)] using hall

/-! ## Six digits -/

/-- Six digits of which the first is not zero. -/
def SixDigits.Normal (d : SixDigits) : Prop := 10 ^ 5 ≤ d.mantissa ∧ d.mantissa < 10 ^ 6

theorem SixDigits.parsePlain_text {d : SixDigits} (h : d.Normal) :
    parsePlain d.text = some d.value := by
  have hdigits : ∀ x ∈ digitsOf 6 d.mantissa, x < 10 := fun x hx => lt_of_mem_digitsOf hx
  have hlength := length_digitsOf 6 d.mantissa
  have hvalue : digitsValue (digitText (digitsOf 6 d.mantissa)) = d.mantissa := by
    rw [digitsValue_digitsOf]
    exact Nat.mod_eq_of_lt h.2
  unfold SixDigits.text SixDigits.value
  dsimp only
  generalize digitsOf 6 d.mantissa = digits at hdigits hlength hvalue ⊢
  have hnil : ∀ c ∈ ([] : List Char).head?, c.isDigit = false ∧ c ≠ '.' := by simp
  split
  · rename_i hfixed
    have htake : digits.take (d.exponent.toNat + 1) ≠ [] := by
      rw [ne_eq, ← List.length_eq_zero_iff, List.length_take]
      omega
    have hread := @parsePlain_withPoint (digits.take (d.exponent.toNat + 1))
      (digits.drop (d.exponent.toNat + 1)) (fun x hx => hdigits x (List.mem_of_mem_take hx))
      (fun x hx => hdigits x (List.mem_of_mem_drop hx)) htake [] hnil 0 rfl
    rw [List.append_nil, ← digitText_append, List.take_append_drop, hvalue, List.length_drop,
      hlength] at hread
    rw [hread]
    congr 3
    omega
  · split
    · rename_i hsmall
      have hread := @parsePlain_withPoint [0] (List.replicate (d.exponent.natAbs - 1) 0 ++ digits)
        (by simp) (fun x hx => by
          rcases List.mem_append.1 hx with hx | hx
          · rw [(List.mem_replicate.1 hx).2]
            decide
          · exact hdigits x hx) (by simp) [] hnil 0 rfl
      have hzeros : digitText [0] ++ digitText (List.replicate (d.exponent.natAbs - 1) 0 ++ digits) =
          List.replicate (d.exponent.natAbs - 1 + 1) '0' ++ digitText digits := by
        rw [digitText_append, digitText, digitText, List.map_replicate, List.replicate_succ]
        rfl
      rw [List.append_nil, hzeros, digitsValue_eq, Nat.ofDigitChars_append,
        Nat.ofDigitChars_replicate_zero, Nat.mul_zero, ← digitsValue_eq, hvalue,
        List.length_append, List.length_replicate, hlength] at hread
      rw [hread]
      congr 3
      omega
    · have htake : digits.take 1 ≠ [] := by
        rw [ne_eq, ← List.length_eq_zero_iff, List.length_take]
        omega
      have hread := @parsePlain_withPoint (digits.take 1) (digits.drop 1)
        (fun x hx => hdigits x (List.mem_of_mem_take hx))
        (fun x hx => hdigits x (List.mem_of_mem_drop hx)) htake (exponentText d.exponent)
        (fun c (hc : c ∈ (exponentText d.exponent).head?) => by
          obtain rfl : 'e' = c := Option.some.inj hc
          decide) d.exponent (parseExponent_exponentText d.exponent)
      rw [← digitText_append, List.take_append_drop, hvalue, List.length_drop, hlength] at hread
      exact hread

/-- What stands in the text of a number. -/
def Plain (c : Char) : Prop := c.isDigit = true ∨ c ∈ ['.', 'e', '+', '-']

theorem Plain.ascii {c : Char} (h : Plain c) : toAscii c = c ∧ isSpace c = false := by
  rcases h with hdigit | hmem
  · simp only [Char.isDigit, Bool.and_eq_true, decide_eq_true_eq, UInt32.le_iff_toNat_le] at hdigit
    have hlow : 48 ≤ c.toNat := hdigit.1
    have hhigh : c.toNat ≤ 57 := hdigit.2
    have hspace : c ≠ ' ' := by
      rintro rfl
      exact absurd hlow (by decide)
    constructor
    · rw [toAscii, if_pos (by omega)]
    · rw [isSpace, decide_eq_false_iff_not]
      rintro (hblank | ⟨-, hle⟩)
      · exact hspace hblank
      · omega
  · simp only [List.mem_cons, List.not_mem_nil, or_false] at hmem
    rcases hmem with rfl | rfl | rfl | rfl <;> exact ⟨rfl, rfl⟩

theorem Plain.ne_underscore {c : Char} (h : Plain c) : c ≠ '_' := by
  rintro rfl
  rcases h with hdigit | hmem
  · exact absurd hdigit (by decide)
  · exact absurd hmem (by decide)

theorem plain_withPoint {whole fraction : List Nat} (hwhole : ∀ d ∈ whole, d < 10)
    (hfraction : ∀ d ∈ fraction, d < 10) : ∀ c ∈ withPoint whole fraction, Plain c := by
  have hkept : ∀ d ∈ stripZeros fraction, d < 10 := by
    intro d hd
    obtain ⟨count, hcount⟩ := stripZeros_spec fraction
    apply hfraction
    rw [hcount]
    exact List.mem_append_left _ hd
  intro c hc
  unfold withPoint at hc
  split at hc
  · exact Or.inl (isDigit_of_mem_digitText hwhole c hc)
  · rcases List.mem_append.1 hc with hc | hc
    · exact Or.inl (isDigit_of_mem_digitText hwhole c hc)
    · rcases List.mem_cons.1 hc with rfl | hc
      · exact Or.inr (by simp)
      · exact Or.inl (isDigit_of_mem_digitText hkept c hc)

theorem plain_exponentText {exponent : ℤ} : ∀ c ∈ exponentText exponent, Plain c := by
  have hdigits : ∀ c ∈ Nat.toDigits 10 exponent.natAbs, Plain c :=
    fun c hc => Or.inl (Nat.isDigit_of_mem_toDigits (by decide) (by decide) hc)
  intro c hc
  unfold exponentText at hc
  dsimp only at hc
  rcases List.mem_append.1 hc with hc | hc
  · right
    have hsign : ∀ sign ∈ ['+', '-'], ∀ c ∈ ['e', sign], c ∈ ['.', 'e', '+', '-'] := by simp
    split at hc
    · exact hsign '-' (by decide) c hc
    · exact hsign '+' (by decide) c hc
  · split at hc
    · rcases List.mem_cons.1 hc with rfl | hc
      · exact Or.inl (by decide)
      · exact hdigits c hc
    · exact hdigits c hc

theorem SixDigits.plain_text (d : SixDigits) : ∀ c ∈ d.text, Plain c := by
  have hdigits : ∀ x ∈ digitsOf 6 d.mantissa, x < 10 := fun x hx => lt_of_mem_digitsOf hx
  unfold SixDigits.text
  dsimp only
  generalize digitsOf 6 d.mantissa = digits at hdigits ⊢
  split
  · exact plain_withPoint (fun x hx => hdigits x (List.mem_of_mem_take hx))
      fun x hx => hdigits x (List.mem_of_mem_drop hx)
  · split
    · refine plain_withPoint (by simp) fun x hx => ?_
      rcases List.mem_append.1 hx with hx | hx
      · rw [(List.mem_replicate.1 hx).2]
        decide
      · exact hdigits x hx
    · intro c hc
      rcases List.mem_append.1 hc with hc | hc
      · exact plain_withPoint (fun x hx => hdigits x (List.mem_of_mem_take hx))
          (fun x hx => hdigits x (List.mem_of_mem_drop hx)) c hc
      · exact plain_exponentText c hc

theorem dropUnderscores_of_plain {text : List Char} (h : ∀ c ∈ text, Plain c) {previous : Char}
    (hprevious : previous ≠ '_') : dropUnderscores previous text = some text := by
  induction text generalizing previous with
  | nil => simp [dropUnderscores, hprevious]
  | cons c rest ih =>
      rw [List.forall_mem_cons] at h
      have hc := h.1.ne_underscore
      simp [dropUnderscores, hc, hprevious, ih h.2 hc]

theorem read_of_plain {text : List Char} (h : ∀ c ∈ text, Plain c) {q : ℚ}
    (hq : parsePlain text = some q) : read (String.ofList text) = some (.finite q) := by
  have hascii : text.map toAscii = text :=
    (List.map_congr_left fun c hc => (h c hc).ascii.1).trans text.map_id'
  have hkeep : ∀ chars : List Char, (∀ c ∈ chars, Plain c) → chars.dropWhile isSpace = chars := by
    intro chars hchars
    cases chars with
    | nil => rfl
    | cons c rest =>
        rw [List.dropWhile_cons_of_neg]
        simp [(hchars c (by simp)).ascii.2]
  unfold read
  dsimp only
  rw [String.toList_ofList, hascii, hkeep text h,
    hkeep text.reverse (fun c hc => h c (List.mem_reverse.1 hc)), List.reverse_reverse,
    dropUnderscores_of_plain h (by decide), Option.bind_eq_bind, Option.bind_some, hq]

/-! ## Six significant digits -/

/-- A positive number rounded to six significant digits, and zero for the others. -/
def roundSix (q : ℚ) : ℚ := if 0 < q then (sixDigits q).value else 0

variable {q q' : ℚ}

/-- The mantissa before it may carry into a seventh digit. -/
theorem mantissa_bounds (h : 0 < q) :
    10 ^ 5 ≤ roundHalfEven (q * 10 ^ (5 - Int.log 10 q)) ∧
      roundHalfEven (q * 10 ^ (5 - Int.log 10 q)) ≤ 10 ^ 6 := by
  have hlow : (10 : ℚ) ^ Int.log 10 q ≤ q := by exact_mod_cast Int.zpow_log_le_self (by decide) h
  have hhigh : q < (10 : ℚ) ^ (Int.log 10 q + 1) := by
    exact_mod_cast Int.lt_zpow_succ_log_self (by decide) q
  have hpos : (0 : ℚ) < 10 ^ (5 - Int.log 10 q) := by positivity
  have hlow' : ((10 ^ 5 : ℤ) : ℚ) ≤ q * 10 ^ (5 - Int.log 10 q) := by
    calc
      ((10 ^ 5 : ℤ) : ℚ) = 10 ^ Int.log 10 q * 10 ^ (5 - Int.log 10 q) := by
        rw [← zpow_add₀ (by norm_num), add_sub_cancel]
        norm_num
      _ ≤ q * 10 ^ (5 - Int.log 10 q) := mul_le_mul_of_nonneg_right hlow hpos.le
  have hhigh' : q * 10 ^ (5 - Int.log 10 q) ≤ ((10 ^ 6 : ℤ) : ℚ) := by
    calc
      q * 10 ^ (5 - Int.log 10 q) ≤ 10 ^ (Int.log 10 q + 1) * 10 ^ (5 - Int.log 10 q) :=
        mul_le_mul_of_nonneg_right hhigh.le hpos.le
      _ = ((10 ^ 6 : ℤ) : ℚ) := by
        rw [← zpow_add₀ (by norm_num), show Int.log 10 q + 1 + (5 - Int.log 10 q) = 6 by omega]
        norm_num
  have hbelow := roundHalfEven_mono hlow'
  have habove := roundHalfEven_mono hhigh'
  rw [roundHalfEven_intCast] at hbelow habove
  exact ⟨hbelow, habove⟩

theorem sixDigits_normal (h : 0 < q) : (sixDigits q).Normal := by
  obtain ⟨hlow, hhigh⟩ := mantissa_bounds h
  unfold sixDigits
  dsimp only
  split
  · exact ⟨le_refl _, by norm_num⟩
  · rename_i hne
    constructor
    · show 10 ^ 5 ≤ (roundHalfEven _).toNat
      omega
    · show (roundHalfEven _).toNat < 10 ^ 6
      omega

/-- A carry does not change the value. -/
theorem roundSix_eq (h : 0 < q) :
    roundSix q = roundHalfEven (q * 10 ^ (5 - Int.log 10 q)) * 10 ^ (Int.log 10 q - 5) := by
  obtain ⟨hlow, -⟩ := mantissa_bounds h
  rw [roundSix, if_pos h]
  unfold sixDigits SixDigits.value
  dsimp only
  split
  · rename_i hcarry
    have heq : roundHalfEven (q * 10 ^ (5 - Int.log 10 q)) = 10 ^ 6 := by omega
    rw [heq, show Int.log 10 q + 1 - 5 = 1 + (Int.log 10 q - 5) by omega,
      zpow_add₀ (by norm_num)]
    push_cast
    ring
  · have heq : ((roundHalfEven (q * 10 ^ (5 - Int.log 10 q))).toNat : ℤ) =
        roundHalfEven (q * 10 ^ (5 - Int.log 10 q)) := by omega
    rw [← heq]
    rfl

theorem roundSix_of_nonpos (h : q ≤ 0) : roundSix q = 0 := if_neg (not_lt.2 h)

@[simp] theorem roundSix_zero : roundSix 0 = 0 := rfl

theorem roundSix_nonneg (q : ℚ) : 0 ≤ roundSix q := by
  rcases lt_or_ge 0 q with hpos | hneg
  · obtain ⟨hlow, -⟩ := mantissa_bounds hpos
    rw [roundSix_eq hpos]
    have hcast : (0 : ℚ) ≤ roundHalfEven (q * 10 ^ (5 - Int.log 10 q)) := by
      exact_mod_cast (by norm_num : (0 : ℤ) ≤ 10 ^ 5).trans hlow
    positivity
  · rw [roundSix_of_nonpos hneg]

theorem roundSix_mono : Monotone roundSix := by
  intro q q' hle
  rcases le_or_gt q 0 with hneg | hpos
  · rw [roundSix_of_nonpos hneg]
    exact roundSix_nonneg q'
  have hpos' : 0 < q' := hpos.trans_le hle
  obtain ⟨-, hhigh⟩ := mantissa_bounds hpos
  obtain ⟨hlow', -⟩ := mantissa_bounds hpos'
  rw [roundSix_eq hpos, roundSix_eq hpos']
  rcases (Int.log_mono_right (b := 10) hpos hle).lt_or_eq with hlt | heq
  · -- A power of ten lies between the two.
    calc
      (roundHalfEven (q * 10 ^ (5 - Int.log 10 q)) : ℚ) * 10 ^ (Int.log 10 q - 5) ≤
          10 ^ 6 * 10 ^ (Int.log 10 q - 5) := by
        apply mul_le_mul_of_nonneg_right _ (by positivity)
        exact_mod_cast hhigh
      _ = 10 ^ (Int.log 10 q + 1) := by
        rw [← zpow_natCast, ← zpow_add₀ (by norm_num)]
        congr 1
        push_cast
        omega
      _ ≤ 10 ^ Int.log 10 q' := zpow_le_zpow_right₀ (by norm_num) (by omega)
      _ = 10 ^ 5 * 10 ^ (Int.log 10 q' - 5) := by
        rw [← zpow_natCast, ← zpow_add₀ (by norm_num)]
        congr 1
        push_cast
        omega
      _ ≤ roundHalfEven (q' * 10 ^ (5 - Int.log 10 q')) * 10 ^ (Int.log 10 q' - 5) := by
        apply mul_le_mul_of_nonneg_right _ (by positivity)
        exact_mod_cast hlow'
  · rw [heq]
    apply mul_le_mul_of_nonneg_right _ (by positivity)
    exact_mod_cast roundHalfEven_mono (mul_le_mul_of_nonneg_right hle (by positivity))

/-- The text of a number is read back with six significant digits. -/
theorem read_formatG (h : 0 ≤ q) : read (formatG q) = some (.finite (roundSix q)) := by
  rcases h.eq_or_lt with rfl | hpos
  · decide +kernel
  · have hnormal := sixDigits_normal hpos
    rw [formatG, if_neg hpos.ne', if_neg (not_lt.2 hpos.le), roundSix, if_pos hpos]
    exact read_of_plain (SixDigits.plain_text _) (SixDigits.parsePlain_text hnormal)

example : read "\t+1_0.5e-1 " = some (.finite (21 / 20)) ∧ read "٣" = some (.finite 3) ∧
    read "-Infinity" = some (.infinite true) ∧ read "1_" = none := by
  decide +kernel

end Decimal
end Lib
end ContestManagement
