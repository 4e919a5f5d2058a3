import ContestManagement.Grading.Feedback
import ContestManagement.Grading.FloatReduction
import ContestManagement.Grading.Scorable

/-!
# What the public details tell of the private testcases

Two results of a submission that agree on the public testcases.  The public details of a subtask
with a private testcase have no scores, and no more than the name of that testcase; but the marks
on its public rows are set by the fraction of the whole subtask.
-/

namespace ContestManagement
namespace Grading

open Lib
open ScoreTypeGroup (markFeedback)

/-! ## Two results -/

/-- Two results for the same dataset that agree on the public testcases. -/
structure AgreeOnPublic (st : ScoreTypeGroup) (result result' : ScoredResult PyFloat) : Prop where
  evaluations : ∀ codename, st.shows codename = true →
    evaluationOf result.evaluations codename = evaluationOf result'.evaluations codename
  timeLimit : result.timeLimit = result'.timeLimit
  scorePrecision : result.scorePrecision = result'.scorePrecision

/-- Two rows that look the same in public. -/
structure SamePublic (tc tc' : ScoredTestcase PyFloat) : Prop where
  idx : tc.details.idx = tc'.details.idx
  isPublic : tc.isPublic = tc'.isPublic
  same : tc.isPublic = true → tc = tc'

variable {st : ScoreTypeGroup} {result result' : ScoredResult PyFloat} {parameter : PyValue}
  {target : List String} {testcases testcases' : List (ScoredTestcase PyFloat)}

theorem AgreeOnPublic.scoreTestcase (h : AgreeOnPublic st result result') {codename : String}
    (hshows : st.shows codename = true) :
    st.scoreTestcase result parameter codename = st.scoreTestcase result' parameter codename := by
  unfold ScoreTypeGroup.scoreTestcase
  rw [h.evaluations codename hshows, h.timeLimit]

theorem AgreeOnPublic.samePublic (h : AgreeOnPublic st result result')
    (htestcases : target.mapM (st.scoreTestcase result parameter) = .ok testcases)
    (htestcases' : target.mapM (st.scoreTestcase result' parameter) = .ok testcases') :
    List.Forall₂ SamePublic testcases testcases' := by
  apply (forall₂_of_mapM_eq_ok htestcases htestcases').imp
  rintro tc tc' ⟨codename, -, htc, htc'⟩
  have hscored := scored_of_scoreTestcase htc
  have hscored' := scored_of_scoreTestcase htc'
  constructor
  · rw [hscored.idx, hscored'.idx]
  · rw [hscored.isPublic, hscored'.isPublic]
  · intro hpublic
    rw [hscored.isPublic] at hpublic
    rw [h.scoreTestcase hpublic, htc'] at htc
    exact (Except.ok.inj htc).symm

/-- The search for the first lowest testcase only looks at public rows. -/
theorem firstLowest_congr (h : List.Forall₂ SamePublic testcases testcases')
    (found : Option (String × PyFloat)) :
    firstLowest found testcases = firstLowest found testcases' := by
  induction h generalizing found with
  | nil => rfl
  | @cons tc tc' rest rest' hsame _ ih =>
      rw [firstLowest, firstLowest, ← hsame.isPublic]
      cases hpublic : tc.isPublic with
      | false => simpa using ih found
      | true => rw [← hsame.same hpublic, ih, ih]

/-- The public rows of a subtask. -/
def publicRows (lowest : Option String) (testcases : List (ScoredTestcase PyFloat)) :
    List TestcaseRow :=
  (testcases.map (markFeedback lowest)).map publicRow

theorem publicRows_congr (h : List.Forall₂ SamePublic testcases testcases')
    (lowest : Option String) : publicRows lowest testcases = publicRows lowest testcases' := by
  induction h with
  | nil => rfl
  | @cons tc tc' rest rest' hsame _ ih =>
      have hrow : publicRow (markFeedback lowest tc) = publicRow (markFeedback lowest tc') := by
        cases hpublic : tc.isPublic with
        | true => rw [hsame.same hpublic]
        | false => simp [publicRow, ← hsame.isPublic, hpublic, hsame.idx]
      simp only [publicRows, List.map_cons, List.cons_eq_cons] at ih ⊢
      exact ⟨hrow, ih⟩

/-! ## The marks on the public rows -/

/-- At least two different testcases of the subtask are public. -/
def TwoPublic (st : ScoreTypeGroup) (target : List String) : Prop :=
  ∃ c ∈ target, ∃ d ∈ target, st.shows c = true ∧ st.shows d = true ∧ c ≠ d

theorem setMarks_of_marked {details : TestcaseDetails}
    (hrestricted : details.showInRestrictedFeedback = true)
    (hoi : details.showInOiRestrictedFeedback = true) :
    { details with showInRestrictedFeedback := true, showInOiRestrictedFeedback := true } =
      details := by
  cases details
  cases hrestricted
  cases hoi
  rfl

/-- A row with no mark looks like one with marks only if it is the first lowest one. -/
theorem publicRow_mark_eq_iff {evaluations : List (Evaluation PyFloat)} {codename first : String}
    {tc : ScoredTestcase PyFloat} (h : Scored st evaluations codename tc) :
    publicRow (markFeedback (some first) tc) = publicRow (markFeedback none tc) ↔
      (st.shows codename = true → codename = first) := by
  rw [← h.isPublic, ← h.idx]
  cases hpublic : tc.isPublic with
  | false => simp [publicRow, hpublic]
  | true =>
      have hunmarked : markFeedback none tc = tc := rfl
      simp only [publicRow, markFeedback_isPublic, hpublic, if_true, TestcaseRow.full.injEq,
        true_implies, hunmarked]
      constructor
      · intro heq
        have hflag := congrArg TestcaseDetails.showInOiRestrictedFeedback heq
        rw [(markFeedback_flags hpublic).2, h.oiRestricted, hpublic] at hflag
        exact of_decide_eq_true hflag
      · rintro rfl
        have hmarked := setMarks_of_marked (h.restricted.trans hpublic) (h.oiRestricted.trans hpublic)
        simpa [markFeedback, hpublic] using hmarked

theorem publicRows_some_eq_iff {evaluations : List (Evaluation PyFloat)}
    (h : List.Forall₂ (Scored st evaluations) target testcases) {first : String} :
    publicRows (some first) testcases = publicRows none testcases ↔
      ∀ codename ∈ target, st.shows codename = true → codename = first := by
  induction h with
  | nil => simp [publicRows]
  | @cons codename tc target testcases hscored _ ih =>
      rw [List.forall_mem_cons, ← ih, ← publicRow_mark_eq_iff hscored]
      simp only [publicRows, List.map_cons, List.cons_eq_cons]

/-- The search ends at what it began with, or at a public testcase. -/
theorem shows_of_firstLowest {evaluations : List (Evaluation PyFloat)}
    (h : List.Forall₂ (Scored st evaluations) target testcases) {found : Option (String × PyFloat)}
    {first : String} (hfirst : firstLowest found testcases = some first) :
    found.map Prod.fst = some first ∨ first ∈ target ∧ st.shows first = true := by
  induction h generalizing found with
  | nil => exact .inl hfirst
  | @cons codename tc target testcases hscored _ ih =>
      rw [firstLowest] at hfirst
      by_cases hfound : tc.isPublic ∧ ∀ lowest ∈ found, tc.score < lowest.2
      · rw [if_pos hfound] at hfirst
        right
        rcases ih hfirst with hsame | ⟨hmem, hshows⟩
        · obtain rfl : tc.details.idx = first := Option.some.inj hsame
          rw [hscored.idx]
          exact ⟨List.mem_cons_self, hscored.isPublic ▸ hfound.1⟩
        · exact ⟨List.mem_cons_of_mem codename hmem, hshows⟩
      · rw [if_neg hfound] at hfirst
        exact (ih hfirst).imp id (And.imp_left (List.mem_cons_of_mem codename))

/-- The search finds nothing only where no testcase is public. -/
theorem not_shows_of_firstLowest {evaluations : List (Evaluation PyFloat)}
    (h : List.Forall₂ (Scored st evaluations) target testcases) {found : Option (String × PyFloat)}
    (hnone : firstLowest found testcases = none) :
    found = none ∧ ∀ codename ∈ target, st.shows codename = false := by
  induction h generalizing found with
  | nil => exact ⟨Option.map_eq_none_iff.1 hnone, List.forall_mem_nil _⟩
  | @cons codename tc target testcases hscored _ ih =>
      rw [firstLowest] at hnone
      by_cases hfound : tc.isPublic ∧ ∀ lowest ∈ found, tc.score < lowest.2
      · rw [if_pos hfound] at hnone
        cases (ih hnone).1
      · rw [if_neg hfound] at hnone
        obtain ⟨rfl, hrest⟩ := ih hnone
        refine ⟨rfl, List.forall_mem_cons.2 ⟨?_, hrest⟩⟩
        simpa [hscored.isPublic] using hfound

/-- Marks can be seen where two testcases are public. -/
theorem publicRows_firstLowest_eq_iff {evaluations : List (Evaluation PyFloat)}
    (h : List.Forall₂ (Scored st evaluations) target testcases) :
    publicRows (firstLowest none testcases) testcases = publicRows none testcases ↔
      ¬TwoPublic st target := by
  cases hfirst : firstLowest none testcases with
  | none =>
      constructor
      · rintro - ⟨c, hc, -, -, hshows, -⟩
        rw [(not_shows_of_firstLowest h hfirst).2 c hc] at hshows
        cases hshows
      · intro _
        rfl
  | some first =>
      obtain ⟨hmem, hshows⟩ := (shows_of_firstLowest h hfirst).resolve_left (by simp)
      rw [publicRows_some_eq_iff h]
      constructor
      · rintro hall ⟨c, hc, d, hd, hshowsc, hshowsd, hne⟩
        exact hne ((hall c hc hshowsc).trans (hall d hd hshowsd).symm)
      · intro htwo codename hcodename hshowsc
        by_contra hne
        exact htwo ⟨codename, hcodename, first, hmem, hshowsc, hshows, hne⟩

/-- The public rows of two results. -/
theorem AgreeOnPublic.publicRows_eq_iff (h : AgreeOnPublic st result result')
    (htestcases : target.mapM (st.scoreTestcase result parameter) = .ok testcases)
    (htestcases' : target.mapM (st.scoreTestcase result' parameter) = .ok testcases')
    {own own' : PyFloat} :
    publicRows (markedBy own parameter testcases) testcases =
        publicRows (markedBy own' parameter testcases') testcases' ↔
      (TwoPublic st target → getAlwaysShowTestcases parameter = false → (own < 1 ↔ own' < 1)) := by
  have hsame := h.samePublic htestcases htestcases'
  have hmarks := publicRows_firstLowest_eq_iff (scored_of_mapM htestcases)
  rw [← publicRows_congr hsame]
  unfold markedBy
  rw [← firstLowest_congr hsame]
  cases getAlwaysShowTestcases parameter with
  | true => simp
  | false =>
      by_cases hown : own < 1
      · by_cases hown' : own' < 1
        · simp [hown, hown']
        · simpa [hown, hown'] using hmarks
      · by_cases hown' : own' < 1
        · simpa [hown, hown'] using eq_comm.trans hmarks
        · simp [hown, hown']

/-! ## One subtask -/

/-- The public rows of the subtask may give away whether its fraction is below one: they
have marks, its scores are hidden, and it is not always shown. -/
structure HintShown (st : ScoreTypeGroup) (parameter : PyValue) (target : List String) : Prop where
  hidden : ∃ codename ∈ target, st.shows codename = false
  twoPublic : TwoPublic st target
  notAlwaysShown : getAlwaysShowTestcases parameter = false

theorem AgreeOnPublic.scoreSubtask (h : AgreeOnPublic st result result')
    {zeroed : Nat → Option Nat} {index : Nat} (hall : ∀ codename ∈ target, st.shows codename = true) :
    st.scoreSubtask result zeroed ((parameter, target), index) =
      st.scoreSubtask result' zeroed ((parameter, target), index) := by
  have htestcases : target.mapM (st.scoreTestcase result parameter) =
      target.mapM (st.scoreTestcase result' parameter) :=
    mapM_congr_of_mem fun codename hcodename => h.scoreTestcase (hall codename hcodename)
  have hown : st.ownFraction result.evaluations parameter target =
      st.ownFraction result'.evaluations parameter target := by
    unfold ScoreTypeGroup.ownFraction
    rw [mapM_congr_of_mem fun codename hcodename => by
      rw [h.evaluations codename (hall codename hcodename)]]
  simp only [ScoreTypeGroup.scoreSubtask, htestcases, hown, h.scorePrecision]

/-- What a subtask adds to the public part of the result. -/
theorem AgreeOnPublic.publicEntry (h : AgreeOnPublic st result result') {index : Nat}
    {entry entry' : SubtaskEntry PyFloat}
    (hentry : st.scoreSubtask result (fun _ => none) ((parameter, target), index) = .ok entry)
    (hentry' : st.scoreSubtask result' (fun _ => none) ((parameter, target), index) = .ok entry') :
    entry.isAllPublic = entry'.isAllPublic ∧
      (entry.isAllPublic = true → entry.roundedScore = entry'.roundedScore) ∧
      (entry.publicSubtask = entry'.publicSubtask ↔
        (HintShown st parameter target →
          (FullFloat st.kind parameter (target.map (outcomeAt result.evaluations)) ↔
            FullFloat st.kind parameter (target.map (outcomeAt result'.evaluations))))) := by
  obtain ⟨testcases, own, hrows⟩ := entryRows_of_scoreSubtask hentry
  obtain ⟨testcases', own', hrows'⟩ := entryRows_of_scoreSubtask hentry'
  have hpublic := allPublic_eq_all hrows.isAllPublic
  have hpublic' := allPublic_eq_all hrows'.isAllPublic
  have hsame : entry.isAllPublic = entry'.isAllPublic := hpublic.trans hpublic'.symm
  cases hcase : target.all st.shows with
  | true =>
      rw [h.scoreSubtask (List.all_eq_true.1 hcase), hentry'] at hentry
      cases hentry
      have hnone : ¬HintShown st parameter target := by
        rintro ⟨⟨codename, hcodename, hhidden⟩, -, -⟩
        rw [List.all_eq_true.1 hcase codename hcodename] at hhidden
        cases hhidden
      exact ⟨rfl, fun _ => rfl, fun _ hhint => absurd hhint hnone, fun _ => rfl⟩
  | false =>
      rw [hcase] at hpublic hpublic'
      have hhidden : ∃ codename ∈ target, st.shows codename = false := by
        simpa using List.all_eq_false.1 hcase
      have hshown : entry.publicSubtask = entry'.publicSubtask ↔
          publicRows (markedBy own parameter testcases) testcases =
            publicRows (markedBy own' parameter testcases') testcases' := by
        rw [hrows.publicSubtask, hrows'.publicSubtask, hpublic, hpublic']
        simp [hiddenSubtask, publicRows]
      have hfull := reduce_float_lt_one_iff (reduce_of_ownFraction hrows.fraction)
      have hfull' := reduce_float_lt_one_iff (reduce_of_ownFraction hrows'.fraction)
      refine ⟨hsame, fun htrue => ?_, ?_⟩
      · rw [hpublic] at htrue
        cases htrue
      · rw [hshown, h.publicRows_eq_iff hrows.scored hrows'.scored, hfull, hfull', not_iff_not]
        constructor
        · intro heq hhint
          exact heq hhint.twoPublic hhint.notAlwaysShown
        · intro heq htwo hnot
          exact heq ⟨hhidden, htwo, hnot⟩

/-! ## The whole result -/

/-- Without dependencies nothing is zeroed. -/
theorem zeroed_of_independent (hindependent : ∀ numbers ∈ st.dependencies, numbers = [])
    {evaluations : List (Evaluation PyFloat)} {targets : List (List String)} :
    st.zeroed evaluations targets = .ok fun _ => none := by
  rw [ScoreTypeGroup.zeroed, if_neg]
  simpa using hindependent

theorem publicScore_congr {entries entries' : List (SubtaskEntry PyFloat)}
    (h : List.Forall₂ (fun entry entry' => entry.isAllPublic = entry'.isAllPublic ∧
      (entry.isAllPublic = true → entry.roundedScore = entry'.roundedScore)) entries entries') :
    (entries.filter SubtaskEntry.isAllPublic).map SubtaskEntry.roundedScore =
      (entries'.filter SubtaskEntry.isAllPublic).map SubtaskEntry.roundedScore := by
  induction h with
  | nil => rfl
  | @cons entry entry' rest rest' hentry _ ih =>
      cases hpublic : entry.isAllPublic with
      | false =>
          rw [List.filter_cons_of_neg (by simp [hpublic]),
            List.filter_cons_of_neg (by simp [← hentry.1, hpublic]), ih]
      | true =>
          rw [List.filter_cons_of_pos hpublic,
            List.filter_cons_of_pos (hentry.1.symm.trans hpublic), List.map_cons, List.map_cons,
            hentry.2 hpublic, ih]

/-- Two results that agree on the public testcases have the same public part exactly when each
subtask that may give it away is full in both of them or in none. -/
theorem public_details_agree_iff {compile : String → Except PyError (String → Bool)}
    (hindependent : ∀ numbers ∈ st.dependencies, numbers = [])
    (hagree : AgreeOnPublic st result result') (hevaluated : result.evaluated = true)
    (hevaluated' : result'.evaluated = true) {r r' : ScoreResult PyFloat}
    (h : st.computeScore compile result = .ok r) (h' : st.computeScore compile result' = .ok r') :
    ∃ targets, retrieveTargetTestcases compile st.parameters (st.publicTestcases.map Prod.fst) =
        .ok targets ∧
      ((r.publicScore = r'.publicScore ∧ r.publicSubtasks = r'.publicSubtasks) ↔
        ∀ entry ∈ st.parameters.zip targets, HintShown st entry.1 entry.2 →
          (FullFloat st.kind entry.1 (entry.2.map (outcomeAt result.evaluations)) ↔
            FullFloat st.kind entry.1 (entry.2.map (outcomeAt result'.evaluations)))) := by
  obtain ⟨targets, zeroed, entries, htargets, hzeroed, hentries, rfl⟩ :=
    (computeScore_eq_ok_iff hevaluated).1 h
  obtain ⟨targets', zeroed', entries', htargets', hzeroed', hentries', rfl⟩ :=
    (computeScore_eq_ok_iff hevaluated').1 h'
  rw [htargets] at htargets'
  cases htargets'
  rw [zeroed_of_independent hindependent] at hzeroed hzeroed'
  cases hzeroed
  cases hzeroed'
  have hpublicScore : (resultOf result.scorePrecision entries).publicScore =
      (resultOf result'.scorePrecision entries').publicScore := by
    apply congrArg (List.foldl (· + ·) 0)
    apply publicScore_congr
    apply (forall₂_of_mapM_eq_ok hentries hentries').imp
    rintro entry entry' ⟨⟨⟨parameter, target⟩, index⟩, -, hentry, hentry'⟩
    obtain ⟨hsame, hscore, -⟩ := hagree.publicEntry hentry hentry'
    exact ⟨hsame, hscore⟩
  refine ⟨targets, htargets, ?_⟩
  simp only [hpublicScore, true_and]
  show entries.map SubtaskEntry.publicSubtask = entries'.map SubtaskEntry.publicSubtask ↔ _
  rw [map_eq_map_iff_of_mapM hentries hentries']
  constructor
  · rintro hall ⟨parameter, target⟩ hmem hhint
    obtain ⟨index, hindex⟩ := exists_mem_zipIdx_of_mem hmem
    obtain ⟨entry, hentry⟩ := exists_ok_of_mapM_eq_ok hentries hindex
    obtain ⟨entry', hentry'⟩ := exists_ok_of_mapM_eq_ok hentries' hindex
    obtain ⟨-, -, hiff⟩ := hagree.publicEntry hentry hentry'
    exact hiff.1 (hall _ hindex entry entry' hentry hentry') hhint
  · rintro hall ⟨⟨parameter, target⟩, index⟩ hmem entry entry' hentry hentry'
    obtain ⟨-, -, hiff⟩ := hagree.publicEntry hentry hentry'
    exact hiff.2 (hall _ (List.fst_mem_of_mem_zipIdx hmem))

/-- The minimum over three testcases, the second of which is private. -/
def mixedParameters : PyValue := .list [.list [.int 100, .int 3]]

def mixedTestcases : List (String × Bool) := [("000", true), ("001", false), ("002", true)]

def mixedScoreType : ScoreTypeGroup :=
  (ScoreTypeGroup.create (fun _ => .error .typeError) .groupMin mixedParameters mixedTestcases
    0).toOption.get (by decide +kernel)

/-- All outcomes are ones, but for that of the private testcase. -/
def mixedResult (hidden : PyFloat) : ScoredResult PyFloat :=
  resultWith mixedTestcases fun codename => if codename = "001" then hidden else 1

theorem agreeOnPublic_mixed (hidden hidden' : PyFloat) :
    AgreeOnPublic mixedScoreType (mixedResult hidden) (mixedResult hidden') := by
  constructor
  · intro codename hshows
    have hne : "001" ≠ codename := by
      rintro rfl
      exact absurd hshows (by decide +kernel)
    simp [evaluationOf, mixedResult, resultWith, mixedTestcases, List.find?_cons, hne]
  · rfl
  · rfl

theorem fullyEvaluated_mixed (hidden : PyFloat) :
    FullyEvaluated mixedScoreType (mixedResult hidden) := by
  have htestcases : mixedScoreType.publicTestcases = mixedTestcases := by decide +kernel
  rw [mixedResult, ← htestcases]
  exact fullyEvaluated_resultWith _

def mixedDetails (hidden : PyFloat)
    (h : (mixedScoreType.computeScore (fun _ => .error .typeError)
      (mixedResult hidden)).toOption.isSome) : ScoreResult PyFloat :=
  (mixedScoreType.computeScore (fun _ => .error .typeError) (mixedResult hidden)).toOption.get h

/-- Wrong or not, the private testcase leaves the public details as they are once another
testcase takes something away from the subtask. -/
theorem public_details_agree_iff_mixed :
    ∃ targets, retrieveTargetTestcases (fun _ => .error .typeError) mixedScoreType.parameters
        (mixedScoreType.publicTestcases.map Prod.fst) = .ok targets ∧
      (((mixedDetails 0 (by decide +kernel)).publicScore =
          (mixedDetails (.finite (1 / 2)) (by decide +kernel)).publicScore ∧
        (mixedDetails 0 (by decide +kernel)).publicSubtasks =
          (mixedDetails (.finite (1 / 2)) (by decide +kernel)).publicSubtasks) ↔
        ∀ entry ∈ mixedScoreType.parameters.zip targets,
          HintShown mixedScoreType entry.1 entry.2 →
          (FullFloat mixedScoreType.kind entry.1
              (entry.2.map (outcomeAt (mixedResult 0).evaluations)) ↔
            FullFloat mixedScoreType.kind entry.1
              (entry.2.map (outcomeAt (mixedResult (.finite (1 / 2))).evaluations)))) :=
  public_details_agree_iff (by decide +kernel) (agreeOnPublic_mixed 0 (.finite (1 / 2))) rfl rfl
    (eq_ok_of_toOption (Option.some_get _).symm) (eq_ok_of_toOption (Option.some_get _).symm)

/-- The marks of the public testcases tell whether the private one is right. -/
theorem private_outcome_told :
    ScoreTypeGroup.create (fun _ => .error .typeError) .groupMin mixedParameters mixedTestcases 0 =
        .ok mixedScoreType ∧
      mixedScoreType.dependencies = [[]] ∧
      FullyEvaluated mixedScoreType (mixedResult 0) ∧
      FullyEvaluated mixedScoreType (mixedResult 1) ∧
      AgreeOnPublic mixedScoreType (mixedResult 0) (mixedResult 1) ∧
      mixedScoreType.computeScore (fun _ => .error .typeError) (mixedResult 0) =
        .ok (mixedDetails 0 (by decide +kernel)) ∧
      mixedScoreType.computeScore (fun _ => .error .typeError) (mixedResult 1) =
        .ok (mixedDetails 1 (by decide +kernel)) ∧
      (mixedDetails 0 (by decide +kernel)).publicSubtasks ≠
        (mixedDetails 1 (by decide +kernel)).publicSubtasks :=
  ⟨eq_ok_of_toOption (Option.some_get _).symm, by decide +kernel, fullyEvaluated_mixed 0,
    fullyEvaluated_mixed 1, agreeOnPublic_mixed 0 1, eq_ok_of_toOption (Option.some_get _).symm,
    eq_ok_of_toOption (Option.some_get _).symm, by decide +kernel⟩

end Grading
end ContestManagement
