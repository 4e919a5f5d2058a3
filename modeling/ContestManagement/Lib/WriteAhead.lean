import Mathlib.Data.List.Basic

/-!
# Actions that are written down before they are done

A program books its actions, writes its books to a file now and then, and does an action only after
its booking is in the file.  A crash leaves the file and nothing else.  So whatever was done is in the
file, and after a crash the program knows of it.
-/

namespace ContestManagement
namespace Lib

/-- The books of a program that may crash. -/
structure Books (α : Type) where
  /-- All that was booked, as the program knows it. -/
  known : List α
  /-- All that was booked, as the file has it. -/
  saved : List α
  /-- What may be done now. -/
  ready : List α
  /-- What was booked to be done later, and may not be in the file. -/
  waiting : List α
  done : List α

namespace Books

variable {α : Type}

def start : Books α := ⟨[], [], [], [], []⟩

/-- What can happen to the books. -/
inductive Move : Books α → Books α → Prop
  /-- More is booked, perhaps to be done. -/
  | book {b : Books α} (new chosen : List α) (hidle : b.ready = [] ∧ b.waiting = [])
      (hchosen : chosen.Sublist new) :
      Move b { b with known := b.known ++ new, waiting := chosen }
  /-- More is booked, and the actions in flight stay the same. -/
  | note {b : Books α} (new : List α) : Move b { b with known := b.known ++ new }
  | save (b : Books α) : Move b { b with saved := b.known }
  /-- The first of the waiting actions may be done, after the books were written. -/
  | release {b : Books α} (first rest : List α) (hready : b.ready = [])
      (hwaiting : b.waiting = first ++ rest) :
      Move b { b with saved := b.known, ready := first, waiting := rest }
  /-- The first of the waiting actions are given up. -/
  | giveUp {b : Books α} (first rest : List α) (hwaiting : b.waiting = first ++ rest) :
      Move b { b with waiting := rest }
  | act {b : Books α} (x : α) (rest : List α) (hready : b.ready = x :: rest) :
      Move b { b with ready := rest, done := b.done ++ [x] }
  | pass {b : Books α} (x : α) (rest : List α) (hready : b.ready = x :: rest) :
      Move b { b with ready := rest }
  /-- The program starts again with what the file has. -/
  | crash (b : Books α) : Move b { b with known := b.saved, ready := [], waiting := [] }

/-- What was done, and what may be done, is in the file, and the program knows of it. -/
structure Ahead (b : Books α) : Prop where
  saved : (b.done ++ b.ready).Sublist b.saved
  known : (b.done ++ (b.ready ++ b.waiting)).Sublist b.known

theorem ahead_start : (start : Books α).Ahead := ⟨List.Sublist.slnil, List.Sublist.slnil⟩

variable {b b' : Books α}

theorem Ahead.done_known (h : b.Ahead) : b.done.Sublist b.known :=
  (List.sublist_append_left _ _).trans h.known

theorem Ahead.done_saved (h : b.Ahead) : b.done.Sublist b.saved :=
  (List.sublist_append_left _ _).trans h.saved

theorem Ahead.move (h : b.Ahead) (hmove : Move b b') : b'.Ahead := by
  cases hmove with
  | book new chosen hidle hchosen =>
      refine ⟨h.saved, ?_⟩
      have hdone := h.done_known.append hchosen
      rw [hidle.1]
      exact hdone
  | note new => exact ⟨h.saved, h.known.trans (List.sublist_append_left _ _)⟩
  | save =>
      refine ⟨?_, h.known⟩
      have hready : (b.done ++ b.ready).Sublist (b.done ++ (b.ready ++ b.waiting)) :=
        (List.sublist_append_left _ _).append_left _
      exact hready.trans h.known
  | release first rest hready hwaiting =>
      have hknown := h.known
      rw [hready, hwaiting, List.nil_append] at hknown
      refine ⟨?_, hknown⟩
      have hfirst : (b.done ++ first).Sublist (b.done ++ (first ++ rest)) :=
        (List.sublist_append_left _ _).append_left _
      exact hfirst.trans hknown
  | giveUp first rest hwaiting =>
      refine ⟨h.saved, ?_⟩
      have hrest : (b.done ++ (b.ready ++ rest)).Sublist (b.done ++ (b.ready ++ b.waiting)) := by
        rw [hwaiting]
        exact ((List.sublist_append_right _ _).append_left _).append_left _
      exact hrest.trans h.known
  | act x rest hready =>
      have hsaved := h.saved
      have hknown := h.known
      rw [hready] at hsaved hknown
      refine ⟨?_, ?_⟩
      · show ((b.done ++ [x]) ++ rest).Sublist b.saved
        rw [List.append_assoc, List.singleton_append]
        exact hsaved
      · show ((b.done ++ [x]) ++ (rest ++ b.waiting)).Sublist b.known
        rw [List.append_assoc, List.singleton_append]
        exact hknown
  | pass x rest hready =>
      have hsaved := h.saved
      have hknown := h.known
      rw [hready] at hsaved hknown
      have hrest : rest.Sublist (x :: rest) := List.sublist_cons_self _ _
      refine ⟨(hrest.append_left _).trans hsaved, ?_⟩
      exact ((hrest.append_right _).append_left _).trans hknown
  | crash =>
      have hdone : (b.done ++ []).Sublist b.saved := by
        rw [List.append_nil]
        exact h.done_saved
      exact ⟨hdone, hdone⟩

end Books

end Lib
end ContestManagement
