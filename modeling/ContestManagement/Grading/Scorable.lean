import ContestManagement.Grading.Gates
import ContestManagement.Grading.Reduction

/-!
# Which accepted parameters can be scored

The constructor reads the maximum and the testcases of each subtask.  What else `compute_score`
reads it does not try.
-/

namespace ContestManagement
namespace Grading

open Lib

variable {compile : String → Except PyError (String → Bool)} {kind : GroupKind}
  {parameters : PyValue} {publicTestcases : List (String × Bool)} {scorePrecision : Nat}
  {st : ScoreTypeGroup}

/-! ## Evaluated results -/

/-- The result has an evaluation for each testcase of the dataset, and no other ones. -/
structure FullyEvaluated {F : Type} (st : ScoreTypeGroup) (result : ScoredResult F) : Prop where
  evaluated : result.evaluated = true
  outcomes : ∀ codename ∈ st.publicTestcases.map Prod.fst,
    outcomeOf result.evaluations codename ≠ none
  testcases : ∀ e ∈ result.evaluations, e.codename ∈ st.publicTestcases.map Prod.fst

/-- What `compute_score` needs of a subtask. -/
structure TargetScorable (st : ScoreTypeGroup) (parameter : PyValue) (target : List String) :
    Prop where
  known : ∀ codename ∈ target, codename ∈ st.publicTestcases.map Prod.fst
  nonempty : st.kind ≠ .groupThreshold → target ≠ []
  threshold : st.kind = .groupThreshold → ∃ threshold, thresholdOf parameter = .ok threshold ∧
    (target ≠ [] → ∃ bound, threshold.number? = some bound)

theorem isPublic_ok_of_mem {codename : String} (h : codename ∈ publicTestcases.map Prod.fst) :
    ∃ flag, isPublic publicTestcases codename = .ok flag := by
  unfold isPublic
  cases hlookup : publicTestcases.lookup codename with
  | some flag => exact ⟨flag, rfl⟩
  | none =>
      obtain ⟨⟨name, flag⟩, hmem, rfl⟩ := List.mem_map.1 h
      rw [List.lookup_eq_none_iff] at hlookup
      exact absurd (hlookup _ hmem) (by simp)

/-- The constructor has read the maximum of each subtask. -/
theorem getMaxScore_ok_of_created (h : Created compile st) {targets : List (List String)}
    (htargets : retrieveTargetTestcases compile st.parameters (st.publicTestcases.map Prod.fst) =
      .ok targets) {entry : PyValue × List String} (hentry : entry ∈ st.parameters.zip targets) :
    ∃ maxScore, getMaxScore st.scorePrecision entry.1 = .ok maxScore := by
  have hmaxima := h.maxima
  simp only [maxScores, bind_eq_ok_iff] at hmaxima
  obtain ⟨found, hfound, entries, hentries, -⟩ := hmaxima
  rw [htargets] at hfound
  cases hfound
  obtain ⟨index, hmem⟩ := exists_mem_zipIdx_of_mem hentry
  obtain ⟨maximum, hmaximum⟩ := exists_ok_of_mapM_eq_ok hentries hmem
  simp only [maxScoreOf, bind_eq_ok_iff] at hmaximum
  obtain ⟨maxScore, hmaxScore, -⟩ := hmaximum
  exact ⟨maxScore, hmaxScore⟩

/-! ## Scoring a subtask -/

theorem mem_of_isPublic_ok {codename : String} {flag : Bool}
    (h : isPublic publicTestcases codename = .ok flag) : codename ∈ publicTestcases.map Prod.fst := by
  by_contra hmem
  have hnone : publicTestcases.lookup codename = none := by
    rw [List.lookup_eq_none_iff]
    intro testcase htestcase
    have hne : codename ≠ testcase.1 := by
      rintro rfl
      exact hmem (List.mem_map_of_mem htestcase)
    simpa using hne
  rw [isPublic, hnone] at h
  cases h

/-- A subtask can be scored when its outcomes can be reduced and shown. -/
theorem subtaskScorable_of_outcomes {evaluations : List Evaluation} {parameter : PyValue}
    {target : List String} {outcome : String → ℚ}
    (hknown : ∀ codename ∈ target, codename ∈ st.publicTestcases.map Prod.fst)
    (houtcomes : ∀ codename ∈ target, outcomeOf evaluations codename = some (outcome codename))
    (hreduce : ∃ q, reduce st.kind (target.map outcome) parameter = .ok q)
    (hshown : ∀ codename ∈ target,
      ∃ text, getPublicOutcome st.kind (outcome codename) parameter = .ok text)
    (hmaxScore : ∃ maxScore, getMaxScore st.scorePrecision parameter = .ok maxScore) :
    SubtaskScorable st evaluations parameter target := by
  constructor
  · rw [ownFraction_eq houtcomes]
    exact hreduce
  · intro codename hcodename
    exact ⟨outcome codename, houtcomes codename hcodename, hshown codename hcodename⟩
  · intro codename hcodename
    exact isPublic_ok_of_mem (hknown codename hcodename)
  · exact hmaxScore

theorem TargetScorable.readable {parameter : PyValue} {target : List String}
    (h : TargetScorable st parameter target) (hne : target ≠ []) :
    Readable st.kind parameter := by
  intro hkind
  obtain ⟨threshold, hthreshold, hnumber⟩ := h.threshold hkind
  exact ⟨threshold, hthreshold, hnumber hne⟩

/-- A threshold that nobody looks at need not be a number. -/
theorem TargetScorable.reduce_ok {parameter : PyValue} {target : List String}
    (h : TargetScorable st parameter target) (outcome : String → ℚ) :
    ∃ q, reduce st.kind (target.map outcome) parameter = .ok q := by
  by_cases hnil : target = []
  · subst hnil
    have hkind : st.kind = .groupThreshold := by
      by_contra hkind
      exact h.nonempty hkind rfl
    obtain ⟨threshold, hthreshold, -⟩ := h.threshold hkind
    rw [hkind]
    exact ⟨1, reduce_threshold_eq_ok_iff.2 ⟨threshold, hthreshold, true, rfl, rfl⟩⟩
  · exact reduce_ok_of_readable (h.readable hnil) (by simpa using hnil)

theorem TargetScorable.subtaskScorable {result : ScoredResult} (hresult : FullyEvaluated st result)
    {parameter : PyValue} {target : List String} (h : TargetScorable st parameter target)
    (hmaxScore : ∃ maxScore, getMaxScore st.scorePrecision parameter = .ok maxScore) :
    SubtaskScorable st result.evaluations parameter target := by
  apply @subtaskScorable_of_outcomes st result.evaluations parameter target
    (fun codename => (outcomeOf result.evaluations codename).getD 0) h.known
  · intro codename hcodename
    obtain ⟨outcome, houtcome⟩ :=
      Option.ne_none_iff_exists'.1 (hresult.outcomes codename (h.known codename hcodename))
    rw [houtcome, Option.getD_some]
  · exact h.reduce_ok _
  · intro codename hcodename
    exact getPublicOutcome_ok_of_readable (h.readable (List.ne_nil_of_mem hcodename)) _
  · exact hmaxScore

/-! ## Scoring fatal outcomes -/

/-- What scoring a subtask needs when none of its outcomes is positive. -/
structure TargetReducible (st : ScoreTypeGroup) (parameter : PyValue) (target : List String) :
    Prop where
  known : ∀ codename ∈ target, codename ∈ st.publicTestcases.map Prod.fst
  nonempty : st.kind ≠ .groupThreshold → target ≠ []
  threshold : st.kind = .groupThreshold → ∃ threshold, thresholdOf parameter = .ok threshold

/-- Scoring any outcomes needs as much. -/
theorem targetReducible_of_scorable {evaluations : List Evaluation} {parameter : PyValue}
    {target : List String} (h : SubtaskScorable st evaluations parameter target) :
    TargetReducible st parameter target := by
  obtain ⟨own, hown⟩ := h.fraction
  rw [ScoreTypeGroup.ownFraction, bind_eq_ok_iff] at hown
  obtain ⟨outcomes, houtcomes, hreduce⟩ := hown
  constructor
  · intro codename hcodename
    obtain ⟨flag, hflag⟩ := h.flags codename hcodename
    exact mem_of_isPublic_ok hflag
  · rintro hkind rfl
    cases houtcomes
    cases hcase : st.kind with
    | groupMin =>
        rw [hcase] at hreduce
        cases hreduce
    | groupMul =>
        rw [hcase] at hreduce
        cases hreduce
    | groupThreshold => exact hkind hcase
  · intro hkind
    rw [hkind] at hreduce
    obtain ⟨threshold, hthreshold, -⟩ := reduce_threshold_eq_ok_iff.1 hreduce
    exact ⟨threshold, hthreshold⟩

theorem TargetReducible.reduce_ok {parameter : PyValue} {target : List String}
    (h : TargetReducible st parameter target) {outcome : String → ℚ}
    (hnonpos : ∀ codename, outcome codename ≤ 0) :
    ∃ q, reduce st.kind (target.map outcome) parameter = .ok q := by
  cases hkind : st.kind with
  | groupThreshold =>
      obtain ⟨threshold, hthreshold⟩ := h.threshold hkind
      have hall : ∀ x ∈ target.map outcome, x ≤ 0 := by
        intro x hx
        obtain ⟨codename, -, rfl⟩ := List.mem_map.1 hx
        exact hnonpos codename
      obtain ⟨within, hwithin⟩ := allWithin_ok_of_nonpos threshold hall
      exact ⟨_, reduce_threshold_eq_ok_iff.2 ⟨threshold, hthreshold, within, hwithin, rfl⟩⟩
  | groupMin =>
      have hne : target ≠ [] := h.nonempty (by simp [hkind])
      exact reduce_ok_of_readable (fun hthreshold => by cases hthreshold) (by simpa using hne)
  | groupMul =>
      have hne : target ≠ [] := h.nonempty (by simp [hkind])
      exact reduce_ok_of_readable (fun hthreshold => by cases hthreshold) (by simpa using hne)

theorem TargetReducible.shown {parameter : PyValue} {target : List String}
    (h : TargetReducible st parameter target) {x : ℚ} (hx : x ≤ 0) :
    ∃ text, getPublicOutcome st.kind x parameter = .ok text := by
  cases hkind : st.kind with
  | groupThreshold =>
      obtain ⟨threshold, hthreshold⟩ := h.threshold hkind
      simp only [getPublicOutcome, bind_eq_ok_iff, pure_eq_ok_iff]
      exact ⟨_, threshold, hthreshold, false, withinThreshold_of_nonpos threshold hx, rfl⟩
  | groupMin => exact getPublicOutcome_ok_of_readable (fun hthreshold => by cases hthreshold) x
  | groupMul => exact getPublicOutcome_ok_of_readable (fun hthreshold => by cases hthreshold) x

/-! ## Results with given outcomes -/

/-- The result with the given outcomes. -/
def resultWith {F : Type} (publicTestcases : List (String × Bool)) (outcome : String → F) :
    ScoredResult F where
  evaluated := true
  evaluations := publicTestcases.map fun testcase =>
    ⟨testcase.1, outcome testcase.1, [], none, none⟩
  timeLimit := none
  scorePrecision := 0

theorem outcomeOf_resultWith {F : Type} (outcome : String → F) (codename : String) :
    outcomeOf (resultWith publicTestcases outcome).evaluations codename =
      if codename ∈ publicTestcases.map Prod.fst then some (outcome codename) else none := by
  unfold outcomeOf resultWith
  dsimp only
  induction publicTestcases with
  | nil => rfl
  | cons testcase rest ih =>
      rw [List.map_cons, List.find?_cons]
      by_cases heq : testcase.1 = codename
      · simp [heq]
      · have hne : codename ≠ testcase.1 := fun h => heq h.symm
        simp only [heq, decide_false, ih, List.map_cons, List.mem_cons, hne, false_or]

theorem fullyEvaluated_resultWith {F : Type} (outcome : String → F) :
    FullyEvaluated st (resultWith st.publicTestcases outcome) := by
  constructor
  · rfl
  · intro codename hcodename
    rw [outcomeOf_resultWith, if_pos hcodename]
    exact Option.some_ne_none _
  · intro e he
    obtain ⟨testcase, htestcase, rfl⟩ := List.mem_map.1 he
    exact List.mem_map_of_mem htestcase

/-- A result in which every testcase has the outcome one. -/
def onesResult (publicTestcases : List (String × Bool)) : ScoredResult :=
  resultWith publicTestcases fun _ => 1

/-- The result of ones asks for everything that can be asked for. -/
theorem targetScorable_of_ones {parameter : PyValue} {target : List String}
    (h : SubtaskScorable st (onesResult st.publicTestcases).evaluations parameter target) :
    TargetScorable st parameter target := by
  have hreducible := targetReducible_of_scorable h
  refine ⟨hreducible.known, hreducible.nonempty, fun hkind => ?_⟩
  obtain ⟨own, hown⟩ := h.fraction
  rw [@ownFraction_eq st _ parameter target (fun _ => 1) fun codename hcodename => by
    rw [onesResult, outcomeOf_resultWith, if_pos (hreducible.known codename hcodename)], hkind] at hown
  obtain ⟨threshold, hthreshold, within, hwithin, -⟩ := reduce_threshold_eq_ok_iff.1 hown
  refine ⟨threshold, hthreshold, fun hne => ?_⟩
  cases hnumber : threshold.number? with
  | some bound => exact ⟨bound, rfl⟩
  | none =>
      cases target with
      | nil => exact absurd rfl hne
      | cons codename rest => simp [allWithin, withinThreshold, hnumber] at hwithin

/-! ## Scoring a submission -/

/-- Accepted parameters can be scored, whatever the outcomes, exactly when all targets are testcases,
no minimum or product of nothing is asked for, and thresholds are numbers. -/
theorem accepted_scorable_iff
    (h : ScoreTypeGroup.create compile kind parameters publicTestcases scorePrecision = .ok st) :
    ∃ targets, retrieveTargetTestcases compile st.parameters (st.publicTestcases.map Prod.fst) =
        .ok targets ∧
      ((∀ result : ScoredResult, FullyEvaluated st result →
          ∃ r, st.computeScore compile result = .ok r) ↔
        ∀ entry ∈ st.parameters.zip targets, TargetScorable st entry.1 entry.2) := by
  obtain ⟨haccepted, -⟩ := accepted_of_create h
  obtain ⟨hcreated, -⟩ := created_of_create h
  obtain ⟨targets, htargets⟩ := haccepted.targets
  refine ⟨targets, htargets, ?_, ?_⟩
  · intro hscores entry hentry
    have hones := hscores _ (fullyEvaluated_resultWith fun _ => 1)
    rw [computeScore_ok_iff rfl htargets haccepted.ordered] at hones
    exact targetScorable_of_ones (hones entry hentry)
  · intro hscorable result hresult
    rw [computeScore_ok_iff hresult.evaluated htargets haccepted.ordered]
    exact fun entry hentry => (hscorable entry hentry).subtaskScorable hresult
      (getMaxScore_ok_of_created hcreated htargets hentry)

/-- Outcomes that are not positive can be scored where some outcomes can. -/
theorem computeScore_ok_of_reducible (haccepted : Accepted compile st) (hcreated : Created compile st)
    {targets : List (List String)}
    (htargets : retrieveTargetTestcases compile st.parameters (st.publicTestcases.map Prod.fst) =
      .ok targets)
    (h : ∀ entry ∈ st.parameters.zip targets, TargetReducible st entry.1 entry.2)
    {outcome : String → ℚ} (hnonpos : ∀ codename, outcome codename ≤ 0) :
    ∃ r, st.computeScore compile (resultWith st.publicTestcases outcome) = .ok r := by
  apply (computeScore_ok_iff rfl htargets haccepted.ordered).2
  intro entry hentry
  have hreducible := h entry hentry
  apply subtaskScorable_of_outcomes hreducible.known
  · intro codename hcodename
    rw [outcomeOf_resultWith, if_pos (hreducible.known codename hcodename)]
  · exact hreducible.reduce_ok hnonpos
  · intro codename _
    exact hreducible.shown (hnonpos codename)
  · exact getMaxScore_ok_of_created hcreated htargets hentry

/-- A single subtask, worth one hundred points, of the first few testcases by codename. -/
def countedParameters (count : ℤ) : PyValue := .list [.list [.int 100, .int count]]

def countedScoreType (count : ℤ) : Except PyError ScoreTypeGroup :=
  ScoreTypeGroup.create (fun _ => .error .typeError) .groupMin (countedParameters count)
    [("000", true)] 0

def singleScoreType : ScoreTypeGroup := (countedScoreType 1).toOption.get (by decide +kernel)

theorem accepted_scorable_iff_single :
    ∃ targets, retrieveTargetTestcases (fun _ => .error .typeError) singleScoreType.parameters
        (singleScoreType.publicTestcases.map Prod.fst) = .ok targets ∧
      ((∀ result : ScoredResult, FullyEvaluated singleScoreType result →
          ∃ r, singleScoreType.computeScore (fun _ => .error .typeError) result = .ok r) ↔
        ∀ entry ∈ singleScoreType.parameters.zip targets,
          TargetScorable singleScoreType entry.1 entry.2) :=
  accepted_scorable_iff (eq_ok_of_toOption (Option.some_get _).symm : countedScoreType 1 =
    .ok singleScoreType)

def nothingScoreType : ScoreTypeGroup := (countedScoreType 0).toOption.get (by decide +kernel)

/-- The constructor accepts the minimum of nothing. -/
theorem accepted_not_scorable :
    countedScoreType 0 = .ok nothingScoreType ∧
      FullyEvaluated nothingScoreType (onesResult nothingScoreType.publicTestcases) ∧
      nothingScoreType.computeScore (fun _ => .error .typeError)
          (onesResult nothingScoreType.publicTestcases) =
        .error (.valueError "min() iterable argument is empty") :=
  ⟨eq_ok_of_toOption (Option.some_get _).symm, fullyEvaluated_resultWith _, by decide +kernel⟩

end Grading
end ContestManagement
