import ContestManagement.Grading.TwoPhase
import Mathlib.Data.List.Zip

/-!
# What a score depends on

`compute_score` taken apart: when it succeeds, and which parts of its result depend
on the evaluations only through the fractions of the subtasks.
-/

namespace ContestManagement
namespace Grading

open Lib

/-! ### The constructor -/

/-- What the constructor has computed. -/
structure Created (compile : String → Except PyError (String → Bool)) (st : ScoreTypeGroup) :
    Prop where
  maxima : maxScores compile st.parameters st.publicTestcases st.scorePrecision =
    .ok (st.maxScore, st.maxPublicScore, st.rankingHeaders)
  dependencies : parseDependencies st.parameters = .ok st.dependencies
  hideDependency : parseHideDependency st.parameters = .ok st.hideDependency

theorem created_of_create {compile : String → Except PyError (String → Bool)} {kind : GroupKind}
    {parameters : PyValue} {publicTestcases : List (String × Bool)} {scorePrecision : Nat}
    {st : ScoreTypeGroup}
    (h : ScoreTypeGroup.create compile kind parameters publicTestcases scorePrecision = .ok st) :
    Created compile st ∧ st.kind = kind ∧ st.publicTestcases = publicTestcases ∧
      st.scorePrecision = scorePrecision := by
  rw [ScoreTypeGroup.create, bind_eq_ok_iff] at h
  obtain ⟨⟨elements, maxScore, maxPublicScore, rankingHeaders⟩, hmaxima, h⟩ := h
  rw [bind_eq_ok_iff] at h
  obtain ⟨dependencies, hdependencies, h⟩ := h
  rw [bind_eq_ok_iff] at h
  obtain ⟨hideDependency, hhide, h⟩ := h
  rw [pure_eq_ok_iff] at h
  subst h
  refine ⟨⟨?_, hdependencies, hhide⟩, rfl, rfl, rfl⟩
  cases hraw : (do
      let parameters ← parameters.elements
      let maxima ← maxScores compile parameters publicTestcases scorePrecision
      return (parameters, maxima) : Except PyError (List PyValue × ℚ × ℚ × List String)) with
  | error e =>
      rw [hraw] at hmaxima
      cases hmaxima
  | ok found =>
      rw [hraw] at hmaxima
      cases hmaxima
      rw [bind_eq_ok_iff] at hraw
      obtain ⟨elements', -, hraw⟩ := hraw
      rw [bind_eq_ok_iff] at hraw
      obtain ⟨maxima, hmaxima, hraw⟩ := hraw
      rw [pure_eq_ok_iff, Prod.mk.injEq] at hraw
      obtain ⟨rfl, rfl⟩ := hraw
      exact hmaxima

/-! ### Evaluations -/

section Evaluations

variable {F : Type} {evaluations : List (Evaluation F)} {codename : String} {e : Evaluation F}

theorem evaluationOf_eq_ok_iff :
    evaluationOf evaluations codename = .ok e ↔
      (evaluations.find? fun e => e.codename = codename) = some e := by
  rw [evaluationOf]
  cases evaluations.find? fun e => e.codename = codename with
  | none => simp
  | some found => simp

/-- The evaluation of a testcase that has an outcome. -/
theorem exists_evaluationOf {outcome : F}
    (h : outcomeOf evaluations codename = some outcome) :
    ∃ e, evaluationOf evaluations codename = .ok e ∧ e.outcome = outcome := by
  rw [outcomeOf, Option.map_eq_some_iff] at h
  obtain ⟨e, he, hout⟩ := h
  exact ⟨e, evaluationOf_eq_ok_iff.2 he, hout⟩

theorem outcomeOf_of_evaluationOf (h : evaluationOf evaluations codename = .ok e) :
    outcomeOf evaluations codename = some e.outcome := by
  rw [outcomeOf, evaluationOf_eq_ok_iff.1 h, Option.map_some]

end Evaluations

/-- The outcomes of a target all of whose testcases are evaluated. -/
theorem ownFraction_eq {st : ScoreTypeGroup} {evaluations : List Evaluation} {parameter : PyValue}
    {target : List String} {outcome : String → ℚ}
    (h : ∀ codename ∈ target, outcomeOf evaluations codename = some (outcome codename)) :
    st.ownFraction evaluations parameter target =
      reduce st.kind (target.map outcome) parameter := by
  have hall : target.mapM (fun codename =>
      (evaluationOf evaluations codename).map Evaluation.outcome) = .ok (target.map outcome) := by
    rw [mapM_eq_ok_iff, List.forall₂_map_right_iff, List.forall₂_same]
    intro codename hcodename
    obtain ⟨e, he, hout⟩ := exists_evaluationOf (h codename hcodename)
    rw [he, ← hout]
    rfl
  rw [ScoreTypeGroup.ownFraction, hall]
  rfl

/-! ### One subtask -/

/-- The part of a subtask's entry that does not show single testcases. -/
structure SubtaskSummary where
  idx : Nat
  scores : Option SubtaskScore
  zeroedByDependency : Option Nat
  roundedScore : ℚ
  isAllPublic : Bool
  rankingDetail : String

def SubtaskEntry.summary (entry : SubtaskEntry) : SubtaskSummary where
  idx := entry.subtask.idx
  scores := entry.subtask.scores
  zeroedByDependency := entry.subtask.zeroedByDependency
  roundedScore := entry.roundedScore
  isAllPublic := entry.isAllPublic
  rankingDetail := entry.rankingDetail

/-- The summary of a subtask from its fraction and its maximum. -/
def summaryOf (index scorePrecision : Nat) (fraction maxScore : ℚ) (zeroed : Option Nat)
    (isAllPublic : Bool) : SubtaskSummary :=
  let rounded := Decimal.roundTo scorePrecision (fraction * maxScore)
  ⟨index, some ⟨fraction, rounded, maxScore⟩, zeroed, rounded, isAllPublic, Decimal.formatG rounded⟩

section Subtask

variable {st : ScoreTypeGroup} {result : ScoredResult} {zeroed : Nat → Option Nat}
  {parameter : PyValue} {target : List String} {index : Nat}

theorem scoreSubtask_spec {entry : SubtaskEntry}
    (h : st.scoreSubtask result zeroed ((parameter, target), index) = .ok entry) :
    ∃ own maxScore, st.ownFraction result.evaluations parameter target = .ok own ∧
      getMaxScore st.scorePrecision parameter = .ok maxScore ∧
      allPublic st.publicTestcases target = .ok entry.isAllPublic ∧
      entry.summary = summaryOf index result.scorePrecision
        (if (zeroed index).isSome then 0 else own) maxScore (zeroed index) entry.isAllPublic := by
  simp only [ScoreTypeGroup.scoreSubtask, bind_eq_ok_iff, pure_eq_ok_iff] at h
  obtain ⟨testcases, -, own, hown, maxScore, hmaxScore, isAllPublic, hpublic, rfl⟩ := h
  exact ⟨own, maxScore, hown, hmaxScore, hpublic, rfl⟩

/-- What scoring a subtask needs. -/
structure SubtaskScorable (st : ScoreTypeGroup) (evaluations : List Evaluation)
    (parameter : PyValue) (target : List String) : Prop where
  fraction : ∃ own, st.ownFraction evaluations parameter target = .ok own
  outcomes : ∀ codename ∈ target, ∃ outcome, outcomeOf evaluations codename = some outcome ∧
    ∃ text, getPublicOutcome st.kind outcome parameter = .ok text
  flags : ∀ codename ∈ target, ∃ flag, isPublic st.publicTestcases codename = .ok flag
  maxScore : ∃ maxScore, getMaxScore st.scorePrecision parameter = .ok maxScore

theorem allPublic_ok {publicTestcases : List (String × Bool)} {target : List String}
    (h : ∀ codename ∈ target, ∃ flag, isPublic publicTestcases codename = .ok flag) :
    ∃ flag, allPublic publicTestcases target = .ok flag := by
  induction target with
  | nil => exact ⟨true, rfl⟩
  | cons codename rest ih =>
      obtain ⟨flag, hflag⟩ := h codename (by simp)
      cases flag with
      | false => exact ⟨false, by simp [allPublic, hflag]⟩
      | true =>
          obtain ⟨others, hothers⟩ := ih fun c hc => h c (by simp [hc])
          exact ⟨others, by simp [allPublic, hflag, hothers]⟩

/-- Scoring a subtask succeeds exactly when it has what it needs. -/
theorem scoreSubtask_ok_iff :
    (∃ entry, st.scoreSubtask result zeroed ((parameter, target), index) = .ok entry) ↔
      SubtaskScorable st result.evaluations parameter target := by
  constructor
  · rintro ⟨entry, h⟩
    simp only [ScoreTypeGroup.scoreSubtask, bind_eq_ok_iff, pure_eq_ok_iff] at h
    obtain ⟨testcases, htestcases, own, hown, maxScore, hmaxScore, -⟩ := h
    have hscored : ∀ codename ∈ target, ∃ outcome,
        outcomeOf result.evaluations codename = some outcome ∧
        (∃ text, getPublicOutcome st.kind outcome parameter = .ok text) ∧
        ∃ flag, isPublic st.publicTestcases codename = .ok flag := by
      intro codename hcodename
      obtain ⟨tc, htc⟩ := exists_ok_of_mapM_eq_ok htestcases hcodename
      simp only [ScoreTypeGroup.scoreTestcase, bind_eq_ok_iff] at htc
      obtain ⟨e, he, text, htext, flag, hflag, -⟩ := htc
      exact ⟨e.outcome, outcomeOf_of_evaluationOf he, ⟨text, htext⟩, flag, hflag⟩
    refine ⟨⟨own, hown⟩, ?_, ?_, maxScore, hmaxScore⟩
    · intro codename hcodename
      obtain ⟨outcome, hout, htext, -⟩ := hscored codename hcodename
      exact ⟨outcome, hout, htext⟩
    · intro codename hcodename
      obtain ⟨-, -, -, hflag⟩ := hscored codename hcodename
      exact hflag
  · rintro ⟨⟨own, hown⟩, houtcomes, hflags, maxScore, hmaxScore⟩
    have htestcases : ∃ testcases,
        target.mapM (st.scoreTestcase result parameter) = .ok testcases := by
      refine mapM_ok_of_forall ?_
      intro codename hcodename
      obtain ⟨outcome, hout, text, htext⟩ := houtcomes codename hcodename
      obtain ⟨flag, hflag⟩ := hflags codename hcodename
      obtain ⟨e, he, rfl⟩ := exists_evaluationOf hout
      simp only [ScoreTypeGroup.scoreTestcase, bind_eq_ok_iff, pure_eq_ok_iff]
      exact ⟨_, e, he, text, htext, flag, hflag, rfl⟩
    obtain ⟨testcases, htestcases⟩ := htestcases
    obtain ⟨flag, hflag⟩ := allPublic_ok hflags
    simp only [ScoreTypeGroup.scoreSubtask, bind_eq_ok_iff, pure_eq_ok_iff]
    exact ⟨_, testcases, htestcases, own, hown, maxScore, hmaxScore, flag, hflag, rfl⟩

end Subtask

/-! ### The whole result -/

/-- The scores of a subtask in the details. -/
def SubtaskDetails.scored (subtask : SubtaskDetails) : Nat × Option SubtaskScore × Option Nat :=
  (subtask.idx, subtask.scores, subtask.zeroedByDependency)

/-- Two results that may only differ in the rows of single testcases. -/
structure ScoreResult.SameScores (r r' : ScoreResult) : Prop where
  score : r.score = r'.score
  publicScore : r.publicScore = r'.publicScore
  subtasks : r.subtasks.map SubtaskDetails.scored = r'.subtasks.map SubtaskDetails.scored
  rankingDetails : r.rankingDetails = r'.rankingDetails

/-- The result that the entries of the subtasks give. -/
def resultOf {F : Type} [Fractions F] (scorePrecision : Nat) (entries : List (SubtaskEntry F)) :
    ScoreResult F where
  score := Fractions.roundTo scorePrecision
    (Fractions.total (entries.map SubtaskEntry.roundedScore))
  subtasks := entries.map SubtaskEntry.subtask
  publicScore :=
    Fractions.total ((entries.filter SubtaskEntry.isAllPublic).map SubtaskEntry.roundedScore)
  publicSubtasks := entries.map SubtaskEntry.publicSubtask
  rankingDetails := entries.map SubtaskEntry.rankingDetail

theorem sameScores_of_summaries {scorePrecision : Nat} {entries entries' : List SubtaskEntry}
    (h : entries.map SubtaskEntry.summary = entries'.map SubtaskEntry.summary) :
    (resultOf scorePrecision entries).SameScores (resultOf scorePrecision entries') := by
  have hmap : ∀ {β : Type} (f : SubtaskSummary → β),
      entries.map (fun e => f e.summary) = entries'.map fun e => f e.summary := by
    intro β f
    have := congrArg (List.map f) h
    rwa [List.map_map, List.map_map] at this
  have hfilter : ((entries.filter SubtaskEntry.isAllPublic).map SubtaskEntry.roundedScore) =
      (entries'.filter SubtaskEntry.isAllPublic).map SubtaskEntry.roundedScore := by
    have := congrArg (fun l => (l.filter SubtaskSummary.isAllPublic).map
      SubtaskSummary.roundedScore) h
    simp only [List.filter_map, List.map_map] at this
    exact this
  constructor
  · show Decimal.roundTo _ _ = Decimal.roundTo _ _
    rw [show entries.map SubtaskEntry.roundedScore = entries'.map SubtaskEntry.roundedScore from
      hmap SubtaskSummary.roundedScore]
  · exact congrArg List.sum hfilter
  · show (entries.map SubtaskEntry.subtask).map _ = (entries'.map SubtaskEntry.subtask).map _
    rw [List.map_map, List.map_map]
    exact hmap fun summary => (summary.idx, summary.scores, summary.zeroedByDependency)
  · exact hmap SubtaskSummary.rankingDetail

section Whole

variable {st : ScoreTypeGroup} {compile : String → Except PyError (String → Bool)}
  {result : ScoredResult}

theorem computeScore_eq_ok_iff {F : Type} [OfNat F 0] [OfNat F 1] [Mul F] [Fractions F] [LE F]
    [DecidableLE F] [LT F] [DecidableLT F] {result : ScoredResult F}
    (hevaluated : result.evaluated = true) {r : ScoreResult F} :
    st.computeScore compile result = .ok r ↔
      ∃ targets zeroed entries,
        retrieveTargetTestcases compile st.parameters (st.publicTestcases.map Prod.fst) =
          .ok targets ∧
        st.zeroed result.evaluations targets = .ok zeroed ∧
        (st.parameters.zip targets).zipIdx.mapM (st.scoreSubtask result zeroed) = .ok entries ∧
        r = resultOf result.scorePrecision entries := by
  rw [ScoreTypeGroup.computeScore, hevaluated]
  simp only [not_true_eq_false, if_false, bind_eq_ok_iff, pure_eq_ok_iff]
  constructor
  · rintro ⟨targets, htargets, zeroed, hzeroed, entries, hentries, rfl⟩
    exact ⟨targets, zeroed, entries, htargets, hzeroed, hentries, rfl⟩
  · rintro ⟨targets, zeroed, entries, htargets, hzeroed, hentries, rfl⟩
    exact ⟨targets, htargets, zeroed, hzeroed, entries, hentries, rfl⟩

/-- A subtask and its place. -/
theorem mem_zipIdx_subtasks {parameters : List PyValue} {targets : List (List String)}
    {entry : (PyValue × List String) × Nat} (h : entry ∈ (parameters.zip targets).zipIdx) :
    entry.2 < targets.length ∧ entry.2 < parameters.length ∧
      entry.1.1 = parameters.getD entry.2 .none ∧ entry.1.2 = targets.getD entry.2 [] := by
  obtain ⟨⟨parameter, target⟩, index⟩ := entry
  rw [List.mem_zipIdx_iff_getElem?, List.getElem?_zip_eq_some] at h
  obtain ⟨hparameter, htarget⟩ := h
  obtain ⟨hlt, -⟩ := List.getElem?_eq_some_iff.1 hparameter
  obtain ⟨hlt', -⟩ := List.getElem?_eq_some_iff.1 htarget
  exact ⟨hlt', hlt, by rw [List.getD_eq_getElem?_getD, hparameter]; rfl,
    by rw [List.getD_eq_getElem?_getD, htarget]; rfl⟩

/-- The fractions that `zeroed` is computed from. -/
theorem zeroed_ok_of_scorable {targets : List (List String)} {evaluations : List Evaluation}
    (hordered : ∃ order, topologicalOrder st.dependencies = .ok order)
    (h : ∀ entry ∈ st.parameters.zip targets,
      ∃ own, st.ownFraction evaluations entry.1 entry.2 = .ok own) :
    ∃ zeroed, st.zeroed evaluations targets = .ok zeroed := by
  rw [ScoreTypeGroup.zeroed]
  split
  · obtain ⟨fractions, hfractions⟩ : ∃ fractions, (targets.zip st.parameters).mapM
        (fun entry => st.ownFraction evaluations entry.2 entry.1) = .ok fractions := by
      refine mapM_ok_of_forall ?_
      rintro ⟨target, parameter⟩ hentry
      refine h (parameter, target) ?_
      rw [← List.zip_swap, List.mem_map] at hentry
      obtain ⟨⟨p, t⟩, hmem, heq⟩ := hentry
      cases heq
      exact hmem
    obtain ⟨order, horder⟩ := hordered
    rw [hfractions, ok_bind, zeroedBy, horder]
    exact ⟨_, rfl⟩
  · exact ⟨_, rfl⟩

/-- Scoring succeeds exactly when every subtask has what it needs. -/
theorem computeScore_ok_iff (hevaluated : result.evaluated = true)
    {targets : List (List String)} (htargets : retrieveTargetTestcases compile st.parameters
      (st.publicTestcases.map Prod.fst) = .ok targets)
    (hordered : ∃ order, topologicalOrder st.dependencies = .ok order) :
    (∃ r, st.computeScore compile result = .ok r) ↔
      ∀ entry ∈ st.parameters.zip targets,
        SubtaskScorable st result.evaluations entry.1 entry.2 := by
  constructor
  · rintro ⟨r, h⟩ entry hentry
    obtain ⟨targets', zeroed, entries, htargets', -, hentries, -⟩ :=
      (computeScore_eq_ok_iff hevaluated).1 h
    rw [htargets] at htargets'
    cases htargets'
    obtain ⟨index, hmem⟩ := exists_mem_zipIdx_of_mem hentry
    exact scoreSubtask_ok_iff.1 (exists_ok_of_mapM_eq_ok hentries hmem)
  · intro h
    obtain ⟨zeroed, hzeroed⟩ := zeroed_ok_of_scorable hordered fun entry hentry =>
      (h entry hentry).fraction
    obtain ⟨entries, hentries⟩ : ∃ entries, (st.parameters.zip targets).zipIdx.mapM
        (st.scoreSubtask result zeroed) = .ok entries := by
      refine mapM_ok_of_forall ?_
      rintro ⟨⟨parameter, target⟩, index⟩ hentry
      exact scoreSubtask_ok_iff.2 (h (parameter, target) (List.fst_mem_of_mem_zipIdx hentry))
    exact ⟨_, (computeScore_eq_ok_iff hevaluated).2
      ⟨targets, zeroed, entries, htargets, hzeroed, hentries, rfl⟩⟩

end Whole

end Grading
end ContestManagement
