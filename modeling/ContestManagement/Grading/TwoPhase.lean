import ContestManagement.Grading.ScoreTypes

/-!
# Two-phase evaluation

`cms/grading/twophase.py`.  Codenames read `<group>-<nn>-<tag>`; the testcases of a
group whose tag is `sample` or contains `scr` are its screening testcases, and the
others wait for them.
-/

namespace ContestManagement
namespace Grading

/-- `group_of`: what stands before the first dash, or nothing. -/
def groupOf (codename : String) : String :=
  if '-' ∈ codename.toList then String.ofList (codename.toList.takeWhile (· ≠ '-')) else ""

/-- What stands behind the first dash. -/
def afterDash (text : List Char) : Option (List Char) :=
  match text.dropWhile (· ≠ '-') with
  | [] => none
  | _ :: rest => some rest

/-- `_tag_of`: what stands behind the second dash, or nothing. -/
def tagOf (codename : String) : List Char :=
  ((afterDash codename.toList).bind afterDash).getD []

/-- `is_screening`. -/
def isScreening (codename : String) : Bool :=
  tagOf codename = "sample".toList || (tagOf codename).tails.any ("scr".toList.isPrefixOf ·)

example : groupOf "s1-01-scr-wa" = "s1" ∧ isScreening "s1-01-scr-wa" ∧ ¬isScreening "s1-03-x" := by
  decide

/-- The outcome of a testcase, when it is evaluated. -/
def outcomeOf {F : Type} (evaluations : List (Evaluation F)) (codename : String) : Option F :=
  (evaluations.find? fun e => e.codename = codename).map Evaluation.outcome

inductive ScreeningStatus where
  | pending
  | passed
  | failed
  deriving DecidableEq, Repr

/-- The screening testcases of a group. -/
def screeningOf (codenames : List String) (group : String) : List String :=
  codenames.filter fun codename => isScreening codename ∧ groupOf codename = group

/-- `group_screening_status` at one group; nothing for a group without screening
testcases.  `_passed` is that the outcome is positive. -/
def groupScreeningStatus {F : Type} [OfNat F 0] [LT F] [DecidableLT F] (codenames : List String)
    (outcomes : String → Option F) (group : String) : Option ScreeningStatus :=
  let screening := screeningOf codenames group
  if screening = [] then none
  else
    let done := screening.filterMap outcomes
    if done.length < screening.length then some .pending
    else if ∀ outcome ∈ done, 0 < outcome then some .passed
    else some .failed

/-- A failed screening has a screening testcase with no points. -/
theorem exists_of_screening_failed {codenames : List String} {outcomes : String → Option ℚ}
    {group : String} (h : groupScreeningStatus codenames outcomes group = some .failed) :
    ∃ z ∈ codenames, isScreening z = true ∧ groupOf z = group ∧
      ∃ q, outcomes z = some q ∧ q ≤ 0 := by
  simp only [groupScreeningStatus] at h
  split at h
  · cases h
  · split at h
    · cases h
    · split at h
      · cases h
      · rename_i hnot
        simp only [not_forall, not_lt] at hnot
        obtain ⟨q, hq, hle⟩ := hnot
        obtain ⟨z, hz, hzq⟩ := List.mem_filterMap.1 hq
        obtain ⟨hmem, hscreening⟩ := List.mem_filter.1 hz
        rw [decide_eq_true_eq] at hscreening
        exact ⟨z, hmem, hscreening.1, hscreening.2, q, hzq, hle⟩

theorem filterMap_length_lt {α β : Type*} {f : α → Option β} {values : List α}
    (h : (values.filterMap f).length < values.length) : ∃ x ∈ values, f x = none := by
  induction values with
  | nil => simp at h
  | cons x rest ih =>
      cases hx : f x with
      | none => exact ⟨x, by simp, hx⟩
      | some y =>
          rw [List.filterMap_cons_some hx] at h
          obtain ⟨z, hz, hnone⟩ := ih (by simpa using h)
          exact ⟨z, by simp [hz], hnone⟩

theorem length_filterMap_lt_of_none {α β : Type*} {f : α → Option β} {values : List α} {x : α}
    (hmem : x ∈ values) (hx : f x = none) : (values.filterMap f).length < values.length := by
  induction values with
  | nil => cases hmem
  | cons y rest ih =>
      have hle := List.length_filterMap_le f rest
      rcases List.mem_cons.1 hmem with rfl | hmem
      · rw [List.filterMap_cons_none hx, List.length_cons]
        omega
      · have hlt := ih hmem
        cases hy : f y with
        | none =>
            rw [List.filterMap_cons_none hy, List.length_cons]
            omega
        | some z =>
            rw [List.filterMap_cons_some hy, List.length_cons, List.length_cons]
            omega

/-- A pending screening still has a screening testcase to evaluate. -/
theorem exists_of_screening_pending {codenames : List String} {outcomes : String → Option ℚ}
    {group : String} (h : groupScreeningStatus codenames outcomes group = some .pending) :
    ∃ z ∈ codenames, isScreening z = true ∧ groupOf z = group ∧ outcomes z = none := by
  simp only [groupScreeningStatus] at h
  split at h
  · cases h
  · split at h
    · rename_i hlength
      obtain ⟨z, hz, hnone⟩ := filterMap_length_lt hlength
      obtain ⟨hmem, hscreening⟩ := List.mem_filter.1 hz
      rw [decide_eq_true_eq] at hscreening
      exact ⟨z, hmem, hscreening.1, hscreening.2, hnone⟩
    · split at h
      · cases h
      · cases h

end Grading
end ContestManagement
