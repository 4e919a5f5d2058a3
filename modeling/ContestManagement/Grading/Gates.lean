import ContestManagement.Grading.ScoreFacts
import ContestManagement.Grading.SubtaskGate
import ContestManagement.Lib.Machine
import ContestManagement.Service.Operations

/-!
# Gated evaluation of a submission

Which evaluations a submission still needs (`submission_get_operations` of
`cms/service/esoperations.py`), the evaluations that the two gates make up
(`_advance_two_phase` and `_advance_dependencies` of EvaluationService), and the
state machine in which they interleave with the answers of the workers.

Testcases are named by their codename throughout: in a dataset a codename and an id
stand for each other.
-/

namespace ContestManagement
namespace Grading

open Lib Service

/-- What grading reads of a dataset, the score precision of its task included. -/
structure Dataset where
  id : Nat
  active : Bool
  /-- The codenames, each with its `public` flag. -/
  testcases : List (String × Bool)
  distinct : (testcases.map Prod.fst).Nodup
  scoreType : GroupKind
  scoreTypeParameters : PyValue
  scorePrecision : Nat
  timeLimit : Option ℚ

namespace Dataset

def codenames (dataset : Dataset) : List String :=
  dataset.testcases.map Prod.fst

variable (compile : String → Except PyError (String → Bool))

/-- `score_type_object`. -/
def scoreTypeObject (dataset : Dataset) : Except PyError ScoreTypeGroup :=
  ScoreTypeGroup.create compile dataset.scoreType dataset.scoreTypeParameters dataset.testcases
    dataset.scorePrecision

/-- `gate_for_dataset`. -/
def gate (dataset : Dataset) : Option SubtaskGate :=
  if declaresDependencies dataset.scoreTypeParameters then
    (do
      let scoreType ← dataset.scoreTypeObject compile
      SubtaskGate.create compile scoreType : Except PyError SubtaskGate).toOption
  else none

end Dataset

/-! ### Results and operations -/

inductive CompilationOutcome where
  | ok
  | fail
  deriving DecidableEq, Repr

/-- What evaluating reads of a submission result. -/
structure SubmissionResult (F : Type := ℚ) where
  compilationOutcome : Option CompilationOutcome
  compilationTries : Nat
  /-- `evaluated()`: the evaluation outcome is set. -/
  evaluated : Bool
  evaluationTries : Nat
  evaluations : List (Evaluation F)
  deriving DecidableEq, Repr

structure Submission where
  id : Nat
  timestamp : ℤ

def maxCompilationTries : Nat := 3

def maxEvaluationTries : Nat := 3

/-- `submission_to_compile`. -/
def submissionToCompile {F : Type} : Option (SubmissionResult F) → Bool
  | none => true
  | some result =>
      result.compilationOutcome.isNone && result.compilationTries < maxCompilationTries

/-- `submission_to_evaluate`. -/
def submissionToEvaluate {F : Type} : Option (SubmissionResult F) → Bool
  | none => false
  | some result =>
      result.compilationOutcome = some .ok && !result.evaluated &&
        result.evaluationTries < maxEvaluationTries

/-- `outcomes_for_screening`. -/
def outcomesForScreening {F : Type} (evaluations : List (Evaluation F)) : String → Option F :=
  outcomeOf (evaluations.filter fun e => !e.skippedByDependency)

section Operations

variable (compile : String → Except PyError (String → Bool)) (twoPhase : Bool) (dataset : Dataset)

variable {F : Type} [OfNat F 0] [OfNat F 1] [Mul F] [LT F] [DecidableLT F] [LE F] [DecidableLE F]
  [Fractions F]

/-- The screening of its group holds a testcase back. -/
def heldByScreening (evaluations : List (Evaluation F)) (codename : String) : Bool :=
  twoPhase && !isScreening codename &&
    (groupScreeningStatus dataset.codenames (outcomesForScreening evaluations)
      (groupOf codename)).getD .passed ≠ .passed

/-- The dependencies hold a testcase back. -/
def heldByDependencies (evaluations : List (Evaluation F)) (codename : String) : Bool :=
  match dataset.gate compile with
  | none => false
  | some gate => !gate.releasable codename (gate.statuses (outcomeOf evaluations))

/-- The testcases that `submission_get_operations` asks to evaluate. -/
def testcasesToEvaluate (evaluations : List (Evaluation F)) : List String :=
  dataset.codenames.filter fun codename =>
    (outcomeOf evaluations codename).isNone &&
      !heldByDependencies compile dataset evaluations codename &&
      !heldByScreening twoPhase dataset evaluations codename

/-- `submission_get_operations`: the operations with their priority and timestamp. -/
def submissionGetOperations (result : Option (SubmissionResult F)) (submission : Submission)
    (archiveSandbox : Bool) : List (ESOperation × Nat × ℤ) :=
  if submissionToCompile result then
    let priority :=
      if !dataset.active then 4
      else match result with
        | none => 1
        | some result => if result.compilationTries = 0 then 1 else 2
    [(⟨.compilation, submission.id, dataset.id, none, archiveSandbox⟩, priority,
      submission.timestamp)]
  else
    match result with
    | none => []
    | some found =>
        if submissionToEvaluate result then
          let priority :=
            if !dataset.active then 4 else if found.evaluationTries = 0 then 2 else 3
          (testcasesToEvaluate compile twoPhase dataset found.evaluations).map
            fun codename => (⟨.evaluation, submission.id, dataset.id, some codename, archiveSandbox⟩,
              priority, submission.timestamp)
        else []

/-! ### Skips -/

/-- The evaluation that a gate makes up. -/
def skippedEvaluation (codename : String) (text : List String) : Evaluation F where
  codename := codename
  outcome := 0
  text := text
  executionTime := some 0
  executionMemory := some 0

/-- `_advance_two_phase`. -/
def advanceTwoPhase (evaluations : List (Evaluation F)) : List (Evaluation F) :=
  let status := groupScreeningStatus dataset.codenames (outcomesForScreening evaluations)
  evaluations ++ (dataset.codenames.filter fun codename =>
    (outcomeOf evaluations codename).isNone && !isScreening codename &&
      (status (groupOf codename)).getD .passed = .failed).map fun codename =>
        skippedEvaluation codename [skippedMessage]

/-- `_advance_dependencies`. -/
def advanceDependencies (evaluations : List (Evaluation F)) : List (Evaluation F) :=
  match dataset.gate compile with
  | none => evaluations
  | some gate =>
      let status := gate.statuses (outcomeOf evaluations)
      let left := dataset.codenames.filter fun codename => (outcomeOf evaluations codename).isNone
      evaluations ++ left.filterMap fun codename =>
        (gate.skippable status codename).map fun dependency =>
          skippedEvaluation codename [skippedDependencyMessage, toString dependency]

end Operations

/-! ### Enqueueing -/

/-- What `submission_enqueue_operations` ends with. -/
inductive EnqueueOutcome where
  | enqueued (operations : List ESOperation)
  /-- The fallback: the gates hold each other, and these are released without them. -/
  | released (operations : List ESOperation)
  | finalized
  | nothing
  deriving DecidableEq, Repr

section Enqueue

variable (compile : String → Except PyError (String → Bool)) (twoPhase : Bool) (dataset : Dataset)

/-- The testcases without an evaluation. -/
def missingTestcases (evaluations : List (Evaluation F)) : List String :=
  sortedStrings (dataset.codenames.filter fun codename => (outcomeOf evaluations codename).isNone)

variable {F : Type} [OfNat F 0] [OfNat F 1] [Mul F] [LT F] [DecidableLT F] [LE F] [DecidableLE F]
  [Fractions F]

/-- Both advances, in the order of the source. -/
def advanceBoth (evaluations : List (Evaluation F)) : List (Evaluation F) :=
  advanceDependencies compile dataset
    (if twoPhase then advanceTwoPhase dataset evaluations else evaluations)

/-- `submission_enqueue_operations` for one dataset, of a submission that has a
result there. -/
def submissionEnqueueOperations (result : SubmissionResult F) (submission : Submission)
    (archiveSandbox : Bool) : EnqueueOutcome × SubmissionResult F :=
  let operations := submissionGetOperations compile twoPhase dataset (some result)
    submission archiveSandbox
  if operations ≠ [] then (.enqueued (operations.map Prod.fst), result)
  else
    let advanced := { result with
      evaluations := advanceBoth compile twoPhase dataset result.evaluations }
    if submissionToEvaluate (some advanced) then
      let missing := missingTestcases dataset advanced.evaluations
      if missing ≠ [] then
        (.released (missing.map fun codename =>
          ⟨.evaluation, submission.id, dataset.id, some codename, archiveSandbox⟩), advanced)
      else (.finalized, { advanced with evaluated := true })
    else (.nothing, advanced)

end Enqueue

/-! ### The runs -/

/-- What stays the same during a run; `outcome` is what each testcase gives when it
is really evaluated. -/
structure GradingSetup (F : Type := ℚ) [OfNat F 0] [LE F] where
  compile : String → Except PyError (String → Bool)
  twoPhase : Bool
  dataset : Dataset
  submission : Submission
  outcome : String → {x : F // 0 ≤ x}

/-- A submission result and the testcases whose evaluation is on its way. -/
structure GradingRun (F : Type := ℚ) where
  result : SubmissionResult F
  inFlight : List String
  deriving DecidableEq, Repr

inductive GradingAction where
  /-- The operations of the submission are enqueued. -/
  | enqueue
  /-- An evaluation comes back and is written, unless there is one already.  Its
  text is never the one of the dependency gate: the percent signs of what a manager
  writes are doubled (`_sanitize_message`), and no other step uses that message. -/
  | evaluate (codename : String) (text : List String) (time : Option ℚ) (memory : Option ℤ)
  | advanceTwoPhase
  | advanceDependencies
  deriving DecidableEq, Repr

namespace GradingRun

variable {F : Type} [OfNat F 0] [OfNat F 1] [Mul F] [LT F] [DecidableLT F] [LE F] [DecidableLE F]
  [Fractions F]

def withEvaluations (s : GradingRun F) (evaluations : List (Evaluation F)) : GradingRun F :=
  { s with result := { s.result with evaluations := evaluations } }

/-- The testcases that the submission's operations ask for. -/
def requested (setup : GradingSetup F) (s : GradingRun F) : List String :=
  (submissionGetOperations setup.compile setup.twoPhase setup.dataset (some s.result)
    setup.submission false).filterMap fun operation => operation.1.testcaseCodename

def step (setup : GradingSetup F) (s : GradingRun F) : GradingAction → Option (GradingRun F)
  | .enqueue =>
      some { s with inFlight := s.inFlight ++
        (s.requested setup).filter fun codename => codename ∉ s.inFlight }
  | .evaluate codename text time memory =>
      if codename ∈ s.inFlight ∧ text.head? ≠ some skippedDependencyMessage then
        let rest := { s with inFlight := s.inFlight.filter (· ≠ codename) }
        if (outcomeOf s.result.evaluations codename).isNone then
          some (rest.withEvaluations (s.result.evaluations ++
            [⟨codename, setup.outcome codename, text, time, memory⟩]))
        else some rest
      else none
  | .advanceTwoPhase =>
      if setup.twoPhase then
        some (s.withEvaluations
          (Grading.advanceTwoPhase setup.dataset s.result.evaluations))
      else none
  | .advanceDependencies =>
      some (s.withEvaluations
        (Grading.advanceDependencies setup.compile setup.dataset s.result.evaluations))

end GradingRun

variable {F : Type} [OfNat F 0] [OfNat F 1] [Mul F] [LT F] [DecidableLT F] [LE F] [DecidableLE F]
  [Fractions F] in
/-- The runs of a submission that has compiled and has no evaluation yet. -/
def gradingMachine (setup : GradingSetup F) : Machine (GradingRun F) GradingAction where
  init := fun s => s.inFlight = [] ∧ s.result.evaluations = [] ∧
    submissionToCompile (some s.result) = false ∧ submissionToEvaluate (some s.result) = true
  step := GradingRun.step setup

/-- A result that has compiled, without evaluations. -/
def compiledResult {F : Type} : SubmissionResult F :=
  ⟨some .ok, 1, false, 0, []⟩

/-! ### The gate of a dataset -/

section Construction

variable {compile : String → Except PyError (String → Bool)}

theorem length_countTargets (indices : List String) (current : ℤ) (counts : List ℤ) :
    (countTargets indices current counts).length = counts.length := by
  induction counts generalizing current with
  | nil => rfl
  | cons t rest ih => rw [countTargets, List.length_cons, List.length_cons, ih]

/-- There is one target for each subtask. -/
theorem length_retrieveTargetTestcases {parameters : List PyValue} {codenames : List String}
    {targets : List (List String)}
    (h : retrieveTargetTestcases compile parameters codenames = .ok targets) :
    targets.length = parameters.length := by
  rw [retrieveTargetTestcases, bind_eq_ok_iff] at h
  obtain ⟨tParams, htParams, h⟩ := h
  rw [← length_of_mapM_eq_ok htParams]
  dsimp only at h
  split at h
  · rename_i hcounts
    cases h
    rw [length_countTargets, length_of_mapM_eq_some hcounts]
  · rename_i _ hpatterns
    rw [length_of_mapM_eq_ok h, length_of_mapM_eq_some hpatterns]
  · rename_i hfound
    cases h
    exact length_of_mapM_eq_some hfound
  · cases h

/-- What the constructor has checked. -/
structure Accepted (compile : String → Except PyError (String → Bool)) (st : ScoreTypeGroup) : Prop where
  length_dependencies : st.dependencies.length = st.parameters.length
  ordered : ∃ order, topologicalOrder st.dependencies = .ok order
  targets : ∃ targets, retrieveTargetTestcases compile st.parameters
    (st.publicTestcases.map Prod.fst) = .ok targets

theorem accepted_of_create {kind : GroupKind} {parameters : PyValue}
    {publicTestcases : List (String × Bool)} {scorePrecision : Nat} {st : ScoreTypeGroup}
    (h : ScoreTypeGroup.create compile kind parameters publicTestcases scorePrecision = .ok st) :
    Accepted compile st ∧ st.publicTestcases = publicTestcases := by
  obtain ⟨⟨hmaxima, hdependencies, -⟩, -, hpublic, -⟩ := created_of_create h
  rw [parseDependencies, bind_eq_ok_iff] at hdependencies
  obtain ⟨parsed, hparsed, hdependencies⟩ := hdependencies
  rw [bind_eq_ok_iff] at hdependencies
  obtain ⟨order, horder, hdependencies⟩ := hdependencies
  rw [pure_eq_ok_iff] at hdependencies
  subst hdependencies
  rw [maxScores, bind_eq_ok_iff] at hmaxima
  obtain ⟨targets, htargets, -⟩ := hmaxima
  refine ⟨⟨?_, ⟨order, horder⟩, targets, htargets⟩, hpublic⟩
  rw [length_of_mapM_eq_ok hparsed, List.length_zipIdx]

/-- A gate belongs to the score type that it was built for. -/
theorem built_of_create {st : ScoreTypeGroup} {g : SubtaskGate} (haccepted : Accepted compile st)
    (hcreate : SubtaskGate.create compile st = .ok g) :
    g.Built ∧ g.scoreType = st ∧ retrieveTargetTestcases compile st.parameters
      (st.publicTestcases.map Prod.fst) = .ok g.targets := by
  rw [SubtaskGate.create, bind_eq_ok_iff] at hcreate
  obtain ⟨probes, hprobes, hcreate⟩ := hcreate
  rw [bind_eq_ok_iff] at hcreate
  obtain ⟨targets, htargets, hcreate⟩ := hcreate
  rw [bind_eq_ok_iff] at hcreate
  obtain ⟨order, horder, hcreate⟩ := hcreate
  rw [pure_eq_ok_iff] at hcreate
  subst hcreate
  obtain ⟨htopological, hmem⟩ := topologicalOrder_spec horder
  have hlength := length_retrieveTargetTestcases htargets
  refine ⟨⟨htopological, ?_, ?_⟩, rfl, htargets⟩
  · intro index
    rw [hmem index, haccepted.length_dependencies]
    show _ ↔ index < targets.length
    rw [hlength]
  · intro index hindex
    have hindex' : index < st.parameters.length := by
      rw [← hlength]
      exact hindex
    have hparameter : (st.parameters.getD index .none) = st.parameters[index] := by
      simp [hindex']
    show Readable st.kind (st.parameters.getD index .none)
    rw [hparameter]
    obtain ⟨q, hq⟩ := exists_ok_of_mapM_eq_ok hprobes (List.getElem_mem hindex')
    exact readable_of_probe hq

/-- The gate of a dataset belongs to its score type. -/
theorem built_of_gate {dataset : Dataset} {st : ScoreTypeGroup} {g : SubtaskGate}
    (hst : dataset.scoreTypeObject compile = .ok st) (hgate : dataset.gate compile = some g) :
    g.Built ∧ g.scoreType = st ∧
      retrieveTargetTestcases compile st.parameters dataset.codenames = .ok g.targets := by
  obtain ⟨haccepted, hpublic⟩ := accepted_of_create hst
  rw [Dataset.gate] at hgate
  split at hgate
  · rw [hst] at hgate
    have hcreate : SubtaskGate.create compile st = .ok g := eq_ok_of_toOption hgate
    obtain ⟨hbuilt, hst', htargets⟩ := built_of_create haccepted hcreate
    rw [hpublic] at htargets
    exact ⟨hbuilt, hst', htargets⟩
  · cases hgate

end Construction

end Grading
end ContestManagement
