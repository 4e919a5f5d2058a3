import ContestManagement.Grading.ScoreFacts
import Mathlib.Data.List.MinMax

/-!
# The rows of a subtask

What the rows that `compute_score` makes for the testcases of a subtask say, before and after
the feedback marks are set: the marks look for the first public testcase with the lowest outcome.
-/

namespace ContestManagement
namespace Grading

open Lib
open ScoreTypeGroup (markFeedback)

/-- The outcome on a testcase that is evaluated. -/
def outcomeAt {F : Type} [OfNat F 0] (evaluations : List (Evaluation F)) (codename : String) : F :=
  (outcomeOf evaluations codename).getD 0

/-- The testcase is public. -/
def ScoreTypeGroup.shows (st : ScoreTypeGroup) (codename : String) : Bool :=
  (st.publicTestcases.lookup codename).getD false

theorem isPublic_eq_ok_iff {publicTestcases : List (String × Bool)} {codename : String}
    {flag : Bool} :
    isPublic publicTestcases codename = .ok flag ↔ publicTestcases.lookup codename = some flag := by
  rw [isPublic]
  cases publicTestcases.lookup codename with
  | none => simp
  | some found => simp

variable {st : ScoreTypeGroup} {parameter : PyValue} {target : List String}

theorem shows_of_isPublic {codename : String} {flag : Bool}
    (h : isPublic st.publicTestcases codename = .ok flag) : st.shows codename = flag := by
  rw [ScoreTypeGroup.shows, isPublic_eq_ok_iff.1 h, Option.getD_some]

/-- Whether a subtask is all public. -/
theorem allPublic_eq_all {flag : Bool} (h : allPublic st.publicTestcases target = .ok flag) :
    flag = target.all st.shows := by
  induction target with
  | nil =>
      cases h
      rfl
  | cons codename rest ih =>
      cases hpublic : isPublic st.publicTestcases codename with
      | error e =>
          simp only [allPublic, hpublic] at h
          cases h
      | ok found =>
          rw [List.all_cons, shows_of_isPublic hpublic]
          cases found with
          | true =>
              simp only [allPublic, hpublic] at h
              rw [ih h, Bool.true_and]
          | false =>
              simp only [allPublic, hpublic, Except.ok.injEq] at h
              rw [← h, Bool.false_and]

section Rows

variable {F : Type} [OfNat F 0] {evaluations : List (Evaluation F)}

theorem outcomeAt_of_evaluationOf {codename : String} {e : Evaluation F}
    (h : evaluationOf evaluations codename = .ok e) :
    outcomeAt evaluations codename = e.outcome := by
  rw [outcomeAt, outcomeOf_of_evaluationOf h, Option.getD_some]

/-- The fraction of a subtask is the reduction of its outcomes. -/
theorem reduce_of_ownFraction [OfNat F 1] [Mul F] [LT F] [DecidableLT F] [Fractions F] {own : F}
    (h : st.ownFraction evaluations parameter target = .ok own) :
    reduce st.kind (target.map (outcomeAt evaluations)) parameter = .ok own := by
  rw [ScoreTypeGroup.ownFraction, bind_eq_ok_iff] at h
  obtain ⟨outcomes, houtcomes, hown⟩ := h
  have heq : List.Forall₂ (fun codename outcome => outcomeAt evaluations codename = outcome)
      target outcomes := by
    apply (mapM_eq_ok_iff.1 houtcomes).imp
    intro codename outcome hmap
    cases he : evaluationOf evaluations codename with
    | error e =>
        rw [he] at hmap
        cases hmap
    | ok e =>
        rw [he] at hmap
        rw [outcomeAt_of_evaluationOf he]
        exact Except.ok.inj hmap
  rw [← List.forall₂_map_left_iff, List.forall₂_eq_eq_eq] at heq
  rw [heq]
  exact hown

/-! ## The loop over the testcases -/

/-- The row of a testcase before the marks are set. -/
structure Scored (st : ScoreTypeGroup) (evaluations : List (Evaluation F)) (codename : String)
    (tc : ScoredTestcase F) : Prop where
  idx : tc.details.idx = codename
  isPublic : tc.isPublic = st.shows codename
  score : tc.score = outcomeAt evaluations codename
  restricted : tc.details.showInRestrictedFeedback = tc.isPublic
  oiRestricted : tc.details.showInOiRestrictedFeedback = tc.isPublic

variable [OfNat F 1] [LT F] [DecidableLT F] [LE F] [DecidableLE F] [Fractions F]
  {result : ScoredResult F} {testcases : List (ScoredTestcase F)}

theorem scored_of_scoreTestcase {codename : String} {tc : ScoredTestcase F}
    (h : st.scoreTestcase result parameter codename = .ok tc) :
    Scored st result.evaluations codename tc := by
  simp only [ScoreTypeGroup.scoreTestcase, bind_eq_ok_iff, pure_eq_ok_iff] at h
  obtain ⟨e, he, text, -, flag, hflag, rfl⟩ := h
  exact ⟨rfl, (shows_of_isPublic hflag).symm, (outcomeAt_of_evaluationOf he).symm, rfl, rfl⟩

theorem scored_of_mapM (h : target.mapM (st.scoreTestcase result parameter) = .ok testcases) :
    List.Forall₂ (Scored st result.evaluations) target testcases :=
  (mapM_eq_ok_iff.1 h).imp fun _ _ => scored_of_scoreTestcase

end Rows

theorem foldl_firstLowest {evaluations : List Evaluation} {testcases : List ScoredTestcase}
    (h : List.Forall₂ (Scored st evaluations) target testcases) (found : Option String) :
    firstLowest (found.map fun codename => (codename, outcomeAt evaluations codename)) testcases =
      (target.filter st.shows).foldl
        (List.argAux fun b c => outcomeAt evaluations b < outcomeAt evaluations c) found := by
  induction h generalizing found with
  | nil =>
      cases found with
      | none => rfl
      | some codename => rfl
  | @cons codename tc target testcases hscored _ ih =>
      rw [firstLowest]
      cases hshows : st.shows codename with
      | false =>
          rw [List.filter_cons_of_neg (by simp [hshows]), if_neg (by simp [hscored.isPublic, hshows]),
            ih]
      | true =>
          rw [List.filter_cons_of_pos hshows, List.foldl_cons]
          cases found with
          | none =>
              rw [if_pos (by simp [hscored.isPublic, hshows]), hscored.idx, hscored.score]
              exact ih (some codename)
          | some lowest =>
              by_cases hlt : outcomeAt evaluations codename < outcomeAt evaluations lowest
              · rw [if_pos (by simpa [hscored.isPublic, hshows, hscored.score] using hlt),
                  hscored.idx, hscored.score]
                have hnext : List.argAux (fun b c => outcomeAt evaluations b < outcomeAt evaluations c)
                    (some lowest) codename = some codename := if_pos hlt
                rw [hnext]
                exact ih (some codename)
              · rw [if_neg (by simpa [hscored.isPublic, hshows, hscored.score] using hlt)]
                have hkeep : List.argAux (fun b c => outcomeAt evaluations b < outcomeAt evaluations c)
                    (some lowest) codename = some lowest := if_neg hlt
                rw [hkeep]
                exact ih (some lowest)

/-- The loop finds the first public testcase with the lowest outcome. -/
theorem firstLowest_eq_argmin {evaluations : List Evaluation} {testcases : List ScoredTestcase}
    (h : List.Forall₂ (Scored st evaluations) target testcases) :
    firstLowest none testcases = (target.filter st.shows).argmin (outcomeAt evaluations) :=
  foldl_firstLowest h none

/-! ## The rows of a subtask -/

section Entries

variable {F : Type} [OfNat F 0] [OfNat F 1] [Mul F] [LT F] [DecidableLT F] [LE F] [DecidableLE F]
  [Fractions F]

/-- The testcase that the marks of a subtask go by. -/
def markedBy (own : F) (parameter : PyValue) (testcases : List (ScoredTestcase F)) :
    Option String :=
  if own < 1 ∧ !getAlwaysShowTestcases parameter then firstLowest none testcases else none

/-- The row that the public details show. -/
def publicRow (tc : ScoredTestcase F) : TestcaseRow :=
  if tc.isPublic then .full tc.details else .bare tc.details.idx

/-- The public details of a subtask that is not all public. -/
def hiddenSubtask (index : Nat) (zeroed : Option Nat) (marked : List (ScoredTestcase F)) :
    SubtaskDetails F where
  idx := index
  scores := none
  testcases := marked.map publicRow
  zeroedByDependency := if marked.any ScoredTestcase.isPublic then zeroed else none

/-- The rows of a subtask's entry. -/
structure EntryRows (st : ScoreTypeGroup) (result : ScoredResult F) (zeroed : Nat → Option Nat)
    (parameter : PyValue) (target : List String) (index : Nat) (entry : SubtaskEntry F)
    (testcases : List (ScoredTestcase F)) (own : F) : Prop where
  scored : target.mapM (st.scoreTestcase result parameter) = .ok testcases
  fraction : st.ownFraction result.evaluations parameter target = .ok own
  isAllPublic : allPublic st.publicTestcases target = .ok entry.isAllPublic
  rows : entry.subtask.testcases =
    (testcases.map (markFeedback (markedBy own parameter testcases))).map fun tc => .full tc.details
  publicSubtask : entry.publicSubtask =
    let shown := if entry.isAllPublic then entry.subtask else
      hiddenSubtask index (zeroed index)
        (testcases.map (markFeedback (markedBy own parameter testcases)))
    if st.hideDependency.getD index false ∧ (zeroed index).isSome then
      shown.withoutDependencyMessages else shown

theorem entryRows_of_scoreSubtask {result : ScoredResult F} {zeroed : Nat → Option Nat} {index : Nat}
    {entry : SubtaskEntry F}
    (h : st.scoreSubtask result zeroed ((parameter, target), index) = .ok entry) :
    ∃ testcases own, EntryRows st result zeroed parameter target index entry testcases own := by
  simp only [ScoreTypeGroup.scoreSubtask, bind_eq_ok_iff, pure_eq_ok_iff] at h
  obtain ⟨testcases, htestcases, own, hown, maxScore, hmaxScore, isAllPublic, hpublic, rfl⟩ := h
  exact ⟨testcases, own, htestcases, hown, hpublic, rfl, rfl⟩

end Entries

section Marks

variable {F : Type}

@[simp] theorem markFeedback_isPublic (lowest : Option String) (tc : ScoredTestcase F) :
    (markFeedback lowest tc).isPublic = tc.isPublic := by
  unfold markFeedback
  cases lowest with
  | none => rfl
  | some first =>
      dsimp only
      split
      · rfl
      · rfl

@[simp] theorem markFeedback_idx (lowest : Option String) (tc : ScoredTestcase F) :
    (markFeedback lowest tc).details.idx = tc.details.idx := by
  unfold markFeedback
  cases lowest with
  | none => rfl
  | some first =>
      dsimp only
      split
      · rfl
      · rfl

/-- The marks of a public testcase, once the first lowest one is known. -/
theorem markFeedback_flags {first : String} {tc : ScoredTestcase F} (h : tc.isPublic = true) :
    (markFeedback (some first) tc).details.showInRestrictedFeedback =
        decide (tc.details.idx ≤ first) ∧
      (markFeedback (some first) tc).details.showInOiRestrictedFeedback =
        decide (tc.details.idx = first) := by
  simp [markFeedback, h]

end Marks

end Grading
end ContestManagement
