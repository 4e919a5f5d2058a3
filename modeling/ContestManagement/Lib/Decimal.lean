import Mathlib.Data.Int.Log
import Mathlib.Data.Rat.Floor
import Mathlib.Tactic.Common

/-!
# Decimal rounding and decimal text

Numbers are exact rationals.  `roundTo` is rounding to a number of decimals with
ties to even, and `formatG` is the `%g` conversion: six significant digits,
without trailing zeros, in fixed or in exponent notation.  `read` is `float` of a
text, which may also be an infinity or not a number.
-/

namespace ContestManagement
namespace Lib

/-- A floating-point number. -/
inductive PyFloat
  | finite (q : ℚ)
  | infinite (negative : Bool)
  | nan
  deriving DecidableEq

/-- The number that a finite one is. -/
def PyFloat.finite? : PyFloat → Option ℚ
  | finite q => some q
  | _ => none

def PyFloat.NonNeg : PyFloat → Prop
  | finite q => 0 ≤ q
  | infinite negative => negative = false
  | nan => False

instance : (x : PyFloat) → Decidable x.NonNeg
  | .finite q => inferInstanceAs (Decidable (0 ≤ q))
  | .infinite negative => inferInstanceAs (Decidable (negative = false))
  | .nan => isFalse id

namespace Decimal

/-- The nearest integer; a tie goes to the even one. -/
def roundHalfEven (q : ℚ) : ℤ :=
  let below := ⌊q⌋
  let rest := q - below
  if rest < 1 / 2 then below
  else if 1 / 2 < rest then below + 1
  else if below % 2 = 0 then below
  else below + 1

/-- Round to `digits` decimals. -/
def roundTo (digits : Nat) (q : ℚ) : ℚ :=
  roundHalfEven (q * 10 ^ digits) / 10 ^ digits

/-- A positive decimal `mantissa * 10 ^ (exponent - 5)` with a mantissa of six
digits. -/
structure SixDigits where
  mantissa : Nat
  exponent : ℤ
  deriving DecidableEq, Repr

/-- The six significant digits of a positive number.  Rounding up may carry into a
seventh digit. -/
def sixDigits (q : ℚ) : SixDigits :=
  let exponent := Int.log 10 q
  let mantissa := (roundHalfEven (q * 10 ^ (5 - exponent))).toNat
  if mantissa = 10 ^ 6 then ⟨10 ^ 5, exponent + 1⟩ else ⟨mantissa, exponent⟩

/-- The number that the six digits stand for. -/
def SixDigits.value (d : SixDigits) : ℚ :=
  d.mantissa * 10 ^ (d.exponent - 5)

/-- The digits of a number below `10 ^ count`, the leading ones included. -/
def digitsOf : Nat → Nat → List Nat
  | 0, _ => []
  | count + 1, n => digitsOf count (n / 10) ++ [n % 10]

/-- Drop the zeros at the end. -/
def stripZeros (digits : List Nat) : List Nat :=
  (digits.reverse.dropWhile (· = 0)).reverse

/-- The characters of a list of digits. -/
def digitText (digits : List Nat) : List Char :=
  digits.map Nat.digitChar

/-- A whole part and the digits behind the point, which is left out with them. -/
def withPoint (whole fraction : List Nat) : List Char :=
  match stripZeros fraction with
  | [] => digitText whole
  | kept => digitText whole ++ '.' :: digitText kept

/-- An exponent has a sign and at least two digits. -/
def exponentText (exponent : ℤ) : List Char :=
  let digits := Nat.toDigits 10 exponent.natAbs
  ['e', if exponent < 0 then '-' else '+'] ++
    (if digits.length < 2 then '0' :: digits else digits)

/-- The text of six significant digits. -/
def SixDigits.text (d : SixDigits) : List Char :=
  let digits := digitsOf 6 d.mantissa
  if 0 ≤ d.exponent ∧ d.exponent < 6 then
    withPoint (digits.take (d.exponent.toNat + 1)) (digits.drop (d.exponent.toNat + 1))
  else if -4 ≤ d.exponent ∧ d.exponent < 0 then
    withPoint [0] (List.replicate (d.exponent.natAbs - 1) 0 ++ digits)
  else
    withPoint (digits.take 1) (digits.drop 1) ++ exponentText d.exponent

/-- The `%g` conversion. -/
def formatG (q : ℚ) : String :=
  if q = 0 then "0"
  else if q < 0 then String.ofList ('-' :: (sixDigits (-q)).text)
  else String.ofList (sixDigits q).text

/-! ## Reading a number -/

/-- The value of a list of digit characters. -/
def digitsValue (digits : List Char) : Nat :=
  digits.foldl (fun n c => 10 * n + (c.toNat - '0'.toNat)) 0

/-- Underscores may stand between digits; `previous` is the character before the text. -/
def dropUnderscores (previous : Char) : List Char → Option (List Char)
  | [] => if previous = '_' then none else some []
  | c :: rest =>
      if c = '_' then
        if previous.isDigit then dropUnderscores c rest else none
      else if previous = '_' ∧ !c.isDigit then none
      else (c :: ·) <$> dropUnderscores c rest

/-- A sign, or none. -/
def splitSign : List Char → Bool × List Char
  | '-' :: rest => (true, rest)
  | '+' :: rest => (false, rest)
  | text => (false, text)

/-- The exponent behind the digits of a number. -/
def parseExponent : List Char → Option ℤ
  | [] => some 0
  | c :: rest =>
      let (negative, digits) := splitSign rest
      if (c = 'e' ∨ c = 'E') ∧ digits ≠ [] ∧ digits.all Char.isDigit then
        some (if negative then -(digitsValue digits : ℤ) else digitsValue digits)
      else none

/-- A decimal number without spaces and underscores. -/
def parsePlain (text : List Char) : Option ℚ :=
  let (negative, unsigned) := splitSign text
  let whole := unsigned.takeWhile Char.isDigit
  let behind := unsigned.dropWhile Char.isDigit
  let (fraction, rest) :=
    match behind with
    | '.' :: more => (more.takeWhile Char.isDigit, more.dropWhile Char.isDigit)
    | _ => ([], behind)
  if whole = [] ∧ fraction = [] then none
  else do
    let exponent ← parseExponent rest
    let magnitude : ℚ :=
      (digitsValue (whole ++ fraction) : ℚ) * 10 ^ (exponent - fraction.length)
    return if negative then -magnitude else magnitude

/-- The infinities and not-a-number, in any case. -/
def readSpecial (text : List Char) : Option PyFloat :=
  let (negative, unsigned) := splitSign text
  let word := String.ofList (unsigned.map Char.toLower)
  if word = "inf" ∨ word = "infinity" then some (.infinite negative)
  else if word = "nan" then some .nan
  else none

/-- The spaces outside ASCII. -/
def wideSpaces : List Nat :=
  [0x85, 0xa0, 0x1680, 0x2000, 0x2001, 0x2002, 0x2003, 0x2004, 0x2005, 0x2006, 0x2007, 0x2008,
    0x2009, 0x200a, 0x2028, 0x2029, 0x202f, 0x205f, 0x3000]

/-- The zeros outside ASCII; the other nine digits follow each of them. -/
def wideZeros : List Nat :=
  [0x660, 0x6f0, 0x7c0, 0x966, 0x9e6, 0xa66, 0xae6, 0xb66, 0xbe6, 0xc66, 0xce6, 0xd66, 0xde6,
    0xe50, 0xed0, 0xf20, 0x1040, 0x1090, 0x17e0, 0x1810, 0x1946, 0x19d0, 0x1a80, 0x1a90, 0x1b50,
    0x1bb0, 0x1c40, 0x1c50, 0xa620, 0xa8d0, 0xa900, 0xa9d0, 0xa9f0, 0xaa50, 0xabf0, 0xff10, 0x104a0,
    0x10d30, 0x11066, 0x110f0, 0x11136, 0x111d0, 0x112f0, 0x11450, 0x114d0, 0x11650, 0x116c0,
    0x11730, 0x118e0, 0x11950, 0x11c50, 0x11d50, 0x11da0, 0x16a60, 0x16ac0, 0x16b50, 0x1d7ce,
    0x1d7d8, 0x1d7e2, 0x1d7ec, 0x1d7f6, 0x1e140, 0x1e2f0, 0x1e950, 0x1fbf0]

/-- The character that a number may be written with; no number has a question mark. -/
def toAscii (c : Char) : Char :=
  if c.toNat < 127 then c
  else if c.toNat ∈ wideSpaces then ' '
  else
    match wideZeros.find? fun first => first ≤ c.toNat ∧ c.toNat < first + 10 with
    | some first => Nat.digitChar (c.toNat - first)
    | none => '?'

/-- The spaces that may stand around a number. -/
def isSpace (c : Char) : Bool := c = ' ' ∨ (9 ≤ c.toNat ∧ c.toNat ≤ 13)

/-- `float(text)`, `none` where it raises. -/
def read (text : String) : Option PyFloat := do
  let ascii := text.toList.map toAscii
  let stripped := ((ascii.dropWhile isSpace).reverse.dropWhile isSpace).reverse
  let plain ← dropUnderscores ' ' stripped
  match parsePlain plain with
  | some q => some (.finite q)
  | none => readSpecial plain

/-- The finite number that `float(text)` gives. -/
def parse (text : String) : Option ℚ := read text >>= PyFloat.finite?

theorem parse_eq_some_iff {text : String} {q : ℚ} :
    parse text = some q ↔ read text = some (.finite q) := by
  unfold parse
  cases read text with
  | none => simp
  | some x =>
      cases x with
      | finite q' => simp [PyFloat.finite?]
      | infinite negative => simp [PyFloat.finite?]
      | nan => simp [PyFloat.finite?]

end Decimal
end Lib
end ContestManagement
