import Mathlib.Data.List.DropRight
import Mathlib.Tactic.Common

/-!
# Lines

Texts over any alphabet with a newline: reading a text line by line, and lists of which only the
part before the blanks at the end counts.
-/

namespace ContestManagement
namespace Lib

variable {α : Type*}

/-! ## Reading lines -/

section Lines

variable [DecidableEq α] (newline : α)

/-- The next line, its newline included, and the rest of the text; an empty line at the end. -/
def readLine : List α → List α × List α
  | [] => ([], [])
  | c :: text =>
      if c = newline then ([c], text)
      else (c :: (readLine text).1, (readLine text).2)

/-- The lines of a text: each ends with its only newline, or at the end of the text. -/
def linesOf : List α → List (List α)
  | [] => []
  | c :: text =>
      if c = newline then [c] :: linesOf text
      else
        match linesOf text with
        | [] => [[c]]
        | line :: more => (c :: line) :: more

theorem readLine_append (text : List α) :
    (readLine newline text).1 ++ (readLine newline text).2 = text := by
  induction text with
  | nil => rfl
  | cons c text ih =>
      rw [readLine]
      split
      · rfl
      · rw [List.cons_append, ih]

theorem readLine_eq_nil_iff {text : List α} : (readLine newline text).1 = [] ↔ text = [] := by
  cases text with
  | nil => simp [readLine]
  | cons c text =>
      rw [readLine]
      split
      · simp
      · simp

theorem readLine_nil : readLine newline ([] : List α) = ([], []) := rfl

theorem length_readLine_lt {text : List α} (h : text ≠ []) :
    (readLine newline text).2.length < text.length := by
  have happend := congrArg List.length (readLine_append newline text)
  have hline : (readLine newline text).1 ≠ [] := mt (readLine_eq_nil_iff newline).1 h
  have hpos := List.length_pos_iff.2 hline
  rw [List.length_append] at happend
  omega

theorem length_readLine_le (text : List α) : (readLine newline text).2.length ≤ text.length := by
  have happend := congrArg List.length (readLine_append newline text)
  rw [List.length_append] at happend
  omega

/-- Reading a text line by line gives its lines. -/
theorem linesOf_eq_cons {text : List α} (h : text ≠ []) :
    linesOf newline text = (readLine newline text).1 :: linesOf newline (readLine newline text).2 := by
  induction text with
  | nil => exact absurd rfl h
  | cons c text ih =>
      rw [linesOf, readLine]
      by_cases hc : c = newline
      · rw [if_pos hc, if_pos hc]
      · rw [if_neg hc, if_neg hc]
        cases text with
        | nil => rfl
        | cons d text => rw [ih (by simp)]

end Lines

/-! ## Blanks at the end -/

/-- A list without its blanks at the end, from its first value on. -/
theorem rdropWhile_cons (p : α → Bool) (x : α) (xs : List α) :
    (x :: xs).rdropWhile p =
      if p x = true ∧ xs.rdropWhile p = [] then [] else x :: xs.rdropWhile p := by
  induction xs using List.reverseRecOn with
  | nil =>
      rw [List.rdropWhile_singleton, List.rdropWhile_nil]
      simp
  | append_singleton xs y ih =>
      rw [← List.cons_append]
      by_cases hy : p y = true
      · rw [List.rdropWhile_concat_pos p _ y hy, List.rdropWhile_concat_pos p _ y hy, ih]
      · rw [List.rdropWhile_concat_neg p _ y hy, List.rdropWhile_concat_neg p _ y hy,
          if_neg (by simp), List.cons_append]

/-- Two lists agree up to blanks at the end when their first values do and the rest does. -/
theorem rdropWhile_cons_eq_iff {p : α → Bool} {x : α} {xs ys : List α} :
    (x :: xs).rdropWhile p = (x :: ys).rdropWhile p ↔ xs.rdropWhile p = ys.rdropWhile p := by
  rw [rdropWhile_cons, rdropWhile_cons]
  constructor
  · intro h
    split at h
    · rename_i hxs
      split at h
      · rename_i hys
        rw [hxs.2, hys.2]
      · cases h
    · split at h
      · cases h
      · exact (List.cons_eq_cons.1 h).2
  · intro h
    rw [h]

/-- Values that differ can only be dropped. -/
theorem eq_of_rdropWhile_cons_eq {p : α → Bool} {x y : α} {xs ys : List α}
    (hblank : p x = true → p y = true → x = y)
    (h : (x :: xs).rdropWhile p = (y :: ys).rdropWhile p) : x = y := by
  rw [rdropWhile_cons, rdropWhile_cons] at h
  split at h
  · rename_i hx
    split at h
    · rename_i hy
      exact hblank hx.1 hy.1
    · cases h
  · split at h
    · cases h
    · exact (List.cons_eq_cons.1 h).1

end Lib
end ContestManagement
