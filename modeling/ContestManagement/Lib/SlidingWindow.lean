import Mathlib.Algebra.Order.Group.Defs
import Mathlib.Data.List.Basic

/-!
# Budgets over sliding windows

A journal of entries with times that do not decrease.  `Budgeted` says that no window of a given
width holds more than a limit of the entries that pass a test.  An entry may be added when fewer
than the limit are recent, seen from its own time: this is what a program can check, and it may
forget the entries that are not recent any more.
-/

namespace ContestManagement
namespace Lib

variable {α τ : Type} [AddCommGroup τ] [LinearOrder τ]

/-- The entries of a journal that are less than `width` old. -/
def recent (time : α → τ) (width now : τ) (journal : List α) : List α :=
  journal.filter fun x => now - time x < width

/-- The entries from `start` on, before `start + width`. -/
def inWindow (time : α → τ) (width start : τ) (journal : List α) : List α :=
  journal.filter fun x => start ≤ time x ∧ time x < start + width

/-- No window holds more than `limit` of the entries that pass a test. -/
def Budgeted (time : α → τ) (width : τ) (test : α → Bool) (limit : ℕ) (journal : List α) : Prop :=
  ∀ start, ((inWindow time width start journal).filter test).length ≤ limit

variable {time : α → τ} {width now : τ} {test : α → Bool} {limit : ℕ} {journal : List α}

theorem budgeted_nil : Budgeted time width test limit [] := by
  intro start
  simp [inWindow]

/-- Fewer entries stay within a budget. -/
theorem Budgeted.sublist {fewer : List α} (h : Budgeted time width test limit journal)
    (hfewer : fewer.Sublist journal) : Budgeted time width test limit fewer := by
  intro start
  have hle : ((inWindow time width start fewer).filter test).length ≤
      ((inWindow time width start journal).filter test).length :=
    ((hfewer.filter _).filter test).length_le
  exact hle.trans (h start)

theorem recent_append (entries new : List α) :
    recent time width now (entries ++ new) =
      recent time width now entries ++ recent time width now new :=
  List.filter_append ..

/-- An entry that fails the test does not count. -/
theorem Budgeted.append_of_not {x : α} (h : Budgeted time width test limit journal)
    (hx : test x = false) : Budgeted time width test limit (journal ++ [x]) := by
  intro start
  have hsame : (inWindow time width start (journal ++ [x])).filter test =
      (inWindow time width start journal).filter test := by
    rw [inWindow, List.filter_append, List.filter_append, inWindow]
    have hnone : ([x].filter fun x => start ≤ time x ∧ time x < start + width).filter test = [] := by
      rw [List.filter_filter, List.filter_eq_nil_iff]
      intro y hy
      rw [List.mem_singleton] at hy
      subst hy
      simp [hx]
    rw [hnone, List.append_nil]
  rw [hsame]
  exact h start

variable [IsOrderedAddMonoid τ]

/-- The recent entries at a later time are among those at an earlier one. -/
theorem recent_recent {later : τ} (h : now ≤ later) (entries : List α) :
    recent time width later (recent time width now entries) = recent time width later entries := by
  unfold recent
  rw [List.filter_filter]
  refine List.filter_congr fun x _ => ?_
  rw [Bool.and_eq_left_iff_imp]
  intro hlater
  rw [decide_eq_true_eq] at hlater ⊢
  exact (sub_le_sub_right h _).trans_lt hlater

/-- Entries of the past are not recent once the width has passed. -/
theorem recent_eq_nil {past : τ} (h : ∀ x ∈ journal, time x ≤ past) (hnow : past + width ≤ now) :
    recent time width now journal = [] := by
  rw [recent, List.filter_eq_nil_iff]
  intro x hx
  rw [decide_eq_true_eq, not_lt]
  have hle : time x + width ≤ now := (add_le_add_left (h x hx) width).trans hnow
  exact le_sub_iff_add_le'.2 hle

/-- What the window of a new entry holds is recent. -/
theorem length_inWindow_le {start : τ} (hstop : now < start + width) :
    ((inWindow time width start journal).filter test).length ≤
      ((recent time width now journal).filter test).length := by
  refine (List.Sublist.filter test (List.monotone_filter_right journal fun x hx => ?_)).length_le
  rw [decide_eq_true_eq] at hx ⊢
  exact sub_lt_iff_lt_add'.2 (hstop.trans_le (add_le_add_left hx.1 width))

/-- An entry may be added when fewer than the limit are recent. -/
theorem Budgeted.append {x : α} (h : Budgeted time width test limit journal)
    (hfew : ((recent time width (time x) journal).filter test).length < limit) :
    Budgeted time width test limit (journal ++ [x]) := by
  intro start
  rw [inWindow, List.filter_append, List.filter_append, List.length_append]
  by_cases hin : start ≤ time x ∧ time x < start + width
  · have hle : ((inWindow time width start journal).filter test).length ≤
        ((recent time width (time x) journal).filter test).length := length_inWindow_le hin.2
    have hone : (([x].filter fun y => start ≤ time y ∧ time y < start + width).filter test).length ≤
        1 := by
      rw [List.filter_filter]
      exact List.length_filter_le _ _
    rw [inWindow] at hle
    omega
  · have hnone : ([x].filter fun y => start ≤ time y ∧ time y < start + width) = [] := by
      simp [hin]
    rw [hnone]
    have hbefore := h start
    rw [inWindow] at hbefore
    simpa using hbefore

/-- In a journal in which whatever comes after an entry that passes a test passes it too, fewer than
`limit` entries pass it when the first one of the last `limit` entries does not. -/
theorem length_filter_lt_iff (hlater : journal.Pairwise fun x y => test x = true → test y = true)
    (hfull : limit ≤ journal.length) {x : α}
    (hx : journal[journal.length - limit]? = some x) :
    (journal.filter test).length < limit ↔ test x = false := by
  obtain ⟨hindex, hget⟩ := List.getElem?_eq_some_iff.1 hx
  obtain ⟨before, after, hsplit, hlength⟩ : ∃ before after, journal = before ++ x :: after ∧
      after.length + 1 = limit := by
    refine ⟨journal.take (journal.length - limit), journal.drop (journal.length - limit + 1), ?_, ?_⟩
    · rw [← hget, List.getElem_cons_drop, List.take_append_drop]
    · rw [List.length_drop]
      omega
  rw [hsplit, List.pairwise_append, List.pairwise_cons] at hlater
  obtain ⟨-, ⟨hafter, -⟩, hbefore⟩ := hlater
  cases hpasses : test x with
  | true =>
      -- So the last entries all do.
      have hall : (x :: after).filter test = x :: after := by
        rw [List.filter_eq_self]
        intro y hy
        rcases List.mem_cons.1 hy with rfl | hy
        · exact hpasses
        · exact hafter y hy hpasses
      rw [hsplit, List.filter_append, hall, List.length_append, List.length_cons]
      exact iff_of_false (by omega) (by simp)
  | false =>
      have hnone : before.filter test = [] := by
        rw [List.filter_eq_nil_iff]
        intro y hy htest
        have hcontra := hbefore y hy x List.mem_cons_self htest
        rw [hpasses] at hcontra
        cases hcontra
      rw [hsplit, List.filter_append, hnone, List.nil_append,
        List.filter_cons_of_neg (by rw [hpasses]; exact Bool.false_ne_true)]
      have hle : (after.filter test).length ≤ after.length := List.length_filter_le ..
      exact iff_of_true (by omega) rfl

end Lib
end ContestManagement
