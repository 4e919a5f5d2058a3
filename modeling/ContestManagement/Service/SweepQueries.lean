import ContestManagement.Lib.Sql
import ContestManagement.Grading.Gates

/-!
# The sweep of EvaluationService

`get_submissions_operations` and `get_submission_results_to_finalize` of
`cms/service/esoperations.py` as queries over the tables, and what the objects of the same
database are: the path of a single submission, over them, is `submission_get_operations` and
`submission_enqueue_operations`.
-/

namespace ContestManagement
namespace Service
namespace Sweeper

open Lib Grading

/-! ## The tables -/

structure TaskRow where
  id : Nat
  contestId : Option Nat
  activeDatasetId : Option Nat
  scorePrecision : Nat

structure DatasetRow where
  id : Nat
  taskId : Nat
  autojudge : Bool
  /-- The score type, if it is one with groups. -/
  groupKind : Option GroupKind
  scoreTypeParameters : PyValue
  timeLimit : Option ℚ

structure TestcaseRow where
  id : Nat
  datasetId : Nat
  codename : String
  isPublic : Bool

structure SubmissionRow where
  id : Nat
  taskId : Nat
  timestamp : ℤ

structure ResultRow where
  submissionId : Nat
  datasetId : Nat
  compilationOutcome : Option CompilationOutcome
  compilationTries : Nat
  /-- The evaluation outcome is set. -/
  evaluated : Bool
  evaluationTries : Nat

structure EvaluationRow where
  submissionId : Nat
  datasetId : Nat
  testcaseId : Nat
  outcome : ℚ
  text : List String
  executionTime : Option ℚ
  executionMemory : Option ℤ

/-- The key of a result. -/
def ResultRow.key (r : ResultRow) : Nat × Nat := (r.submissionId, r.datasetId)

/-- The key of an evaluation. -/
def EvaluationRow.key (e : EvaluationRow) : Nat × Nat × Nat :=
  (e.submissionId, e.datasetId, e.testcaseId)

/-- The tables, with their keys.  A result is on a dataset of the task of its submission, as
`get_result` asserts, and an evaluation is on a testcase of the dataset of its result. -/
structure Database where
  tasks : List TaskRow
  datasets : List DatasetRow
  testcases : List TestcaseRow
  submissions : List SubmissionRow
  results : List ResultRow
  evaluations : List EvaluationRow
  tasks_distinct : (tasks.map TaskRow.id).Nodup
  datasets_distinct : (datasets.map DatasetRow.id).Nodup
  testcases_distinct : (testcases.map TestcaseRow.id).Nodup
  codenames_distinct : (testcases.map fun tc => (tc.datasetId, tc.codename)).Nodup
  submissions_distinct : (submissions.map SubmissionRow.id).Nodup
  results_distinct : (results.map ResultRow.key).Nodup
  evaluations_distinct : (evaluations.map EvaluationRow.key).Nodup
  dataset_task : ∀ d ∈ datasets, ∃ t ∈ tasks, t.id = d.taskId
  submission_task : ∀ s ∈ submissions, ∃ t ∈ tasks, t.id = s.taskId
  result_owner : ∀ r ∈ results, ∃ s ∈ submissions, ∃ d ∈ datasets,
    s.id = r.submissionId ∧ d.id = r.datasetId ∧ d.taskId = s.taskId
  evaluation_testcase : ∀ e ∈ evaluations, ∃ tc ∈ testcases,
    tc.id = e.testcaseId ∧ tc.datasetId = e.datasetId

namespace Database

variable (db : Database)

/-! ## The queries -/

/-- `contest_filter`. -/
def contestFilter (contestId : Option Nat) (t : TaskRow) : Tri :=
  match contestId with
  | none => some true
  | some id => Tri.eq t.contestId (some id)

/-- `FILTER_SUBMISSION_DATASETS_TO_JUDGE`. -/
def filterDatasetsToJudge (t : TaskRow) (d : DatasetRow) : Tri :=
  Tri.or (Tri.eq (some d.id) t.activeDatasetId) (some d.autojudge)

/-- `FILTER_SUBMISSION_RESULTS_TO_COMPILE`. -/
def filterResultsToCompile (r : ResultRow) : Tri :=
  Tri.and (Tri.not (some r.compilationOutcome.isSome))
    (some (r.compilationTries < maxCompilationTries))

/-- `FILTER_SUBMISSION_RESULTS_TO_EVALUATE`. -/
def filterResultsToEvaluate (r : ResultRow) : Tri :=
  Tri.and (Tri.and (Tri.eq r.compilationOutcome (some .ok)) (Tri.not (some r.evaluated)))
    (some (r.evaluationTries < maxEvaluationTries))

/-- `Dataset.id != Task.active_dataset_id`. -/
def notActive (t : TaskRow) (d : DatasetRow) : Tri :=
  Tri.ne (some d.id) t.activeDatasetId

/-- The submissions with a dataset to judge and no result there. -/
def withoutResult (contestId : Option Nat) :
    List (((SubmissionRow × TaskRow) × DatasetRow) × Option ResultRow) :=
  let submissionsTasks :=
    innerJoin (fun (s : SubmissionRow) (t : TaskRow) => s.taskId = t.id) db.submissions db.tasks
  let withDatasets :=
    innerJoin (fun row (d : DatasetRow) => d.taskId = row.2.id) submissionsTasks db.datasets
  let withResults :=
    leftOuterJoin (fun row (r : ResultRow) =>
      row.2.id = r.datasetId && row.1.1.id = r.submissionId) withDatasets db.results
  withResults.filter fun row => (Tri.and (Tri.and (contestFilter contestId row.1.1.2)
    (filterDatasetsToJudge row.1.1.2 row.1.2)) (some row.2.isNone)).holds

/-- The compilations for which there is no result yet. -/
def toCompileWithoutResult (contestId : Option Nat) : List (Nat × Nat × Nat × ℤ) :=
  (db.withoutResult contestId).map fun row =>
    (row.1.1.1.id, row.1.2.id, caseWhen [(notActive row.1.1.2 row.1.2, 4)] 1,
      row.1.1.1.timestamp)

/-- The submissions with a result to compile, on a dataset to judge. -/
def withResult (contestId : Option Nat) :
    List (((SubmissionRow × TaskRow) × ResultRow) × DatasetRow) :=
  let submissionsTasks :=
    innerJoin (fun (s : SubmissionRow) (t : TaskRow) => s.taskId = t.id) db.submissions db.tasks
  let withResults :=
    innerJoin (fun row (r : ResultRow) => row.1.id = r.submissionId) submissionsTasks db.results
  let withDatasets :=
    innerJoin (fun row (d : DatasetRow) => row.2.datasetId = d.id) withResults db.datasets
  withDatasets.filter fun row => (Tri.and (Tri.and (contestFilter contestId row.1.1.2)
    (filterDatasetsToJudge row.1.1.2 row.2)) (filterResultsToCompile row.1.2)).holds

/-- The compilations of the results that there are. -/
def toCompileWithResult (contestId : Option Nat) : List (Nat × Nat × Nat × ℤ) :=
  (db.withResult contestId).map fun row =>
    (row.1.1.1.id, row.2.id,
      caseWhen [(notActive row.1.1.2 row.2, 4), (some (row.1.2.compilationTries = 0), 1)] 2,
      row.1.1.1.timestamp)

/-- The results with their dataset, submission and task. -/
def joinedResults : List (((ResultRow × DatasetRow) × SubmissionRow) × TaskRow) :=
  innerJoin (fun row (t : TaskRow) => row.2.taskId = t.id)
    (innerJoin (fun row (s : SubmissionRow) => row.1.submissionId = s.id)
      (innerJoin (fun (r : ResultRow) (d : DatasetRow) => r.datasetId = d.id) db.results
        db.datasets) db.submissions) db.tasks

/-- The results to evaluate with the testcases that have no evaluation. -/
def unevaluated (contestId : Option Nat) :
    List (((((ResultRow × DatasetRow) × SubmissionRow) × TaskRow) × TestcaseRow) ×
      Option EvaluationRow) :=
  let withTestcases :=
    innerJoin (fun row (tc : TestcaseRow) => tc.datasetId = row.1.1.2.id) db.joinedResults
      db.testcases
  let withEvaluations :=
    leftOuterJoin (fun row (e : EvaluationRow) =>
      e.submissionId = row.1.1.2.id && e.datasetId = row.1.1.1.2.id &&
        e.testcaseId = row.2.id) withTestcases db.evaluations
  withEvaluations.filter fun row => (Tri.and (Tri.and (Tri.and (contestFilter contestId row.1.1.2)
    (filterDatasetsToJudge row.1.1.2 row.1.1.1.1.2))
    (filterResultsToEvaluate row.1.1.1.1.1)) (some row.2.isNone)).holds

/-- The evaluations to do. -/
def toEvaluate (contestId : Option Nat) : List (Nat × Nat × Nat × ℤ × String) :=
  (db.unevaluated contestId).map fun row =>
    (row.1.1.1.2.id, row.1.1.1.1.2.id,
      caseWhen [(notActive row.1.1.2 row.1.1.1.1.2, 4),
        (some (row.1.1.1.1.1.evaluationTries = 0), 2)] 3,
      row.1.1.1.2.timestamp, row.1.2.codename)

/-- `get_submissions_operations`. -/
def getSubmissionsOperations (contestId : Option Nat) : List (ESOperation × Nat × ℤ) :=
  ((db.toCompileWithoutResult contestId ++ db.toCompileWithResult contestId).map fun row =>
      (⟨.compilation, row.1, row.2.1, none, false⟩, row.2.2.1, row.2.2.2)) ++
    (db.toEvaluate contestId).map fun row =>
      (⟨.evaluation, row.1, row.2.1, some row.2.2.2.2, false⟩, row.2.2.1, row.2.2.2.1)

/-- `get_submission_results_to_finalize`. -/
def getSubmissionResultsToFinalize (contestId : Option Nat) : List ResultRow :=
  (db.joinedResults.filter fun row =>
    let r := row.1.1.1
    let evaluationCount := (db.evaluations.filter fun e =>
      e.submissionId = r.submissionId && e.datasetId = r.datasetId).length
    let testcaseCount := (db.testcases.filter fun tc => tc.datasetId = r.datasetId).length
    (Tri.and (Tri.and (Tri.and (contestFilter contestId row.2)
      (filterDatasetsToJudge row.2 row.1.1.2)) (filterResultsToEvaluate r))
      (some (evaluationCount = testcaseCount))).holds).map fun row => row.1.1.1

/-! ## The objects -/

/-- `dataset.testcases`. -/
def testcasesOf (d : DatasetRow) : List TestcaseRow :=
  db.testcases.filter fun tc => tc.datasetId = d.id

theorem testcasesOf_codenames_nodup (d : DatasetRow) :
    ((db.testcasesOf d).map TestcaseRow.codename).Nodup := by
  have hpairs : ((db.testcasesOf d).map fun tc => (tc.datasetId, tc.codename)).Nodup :=
    db.codenames_distinct.sublist (List.Sublist.map _ List.filter_sublist)
  have heq : ((db.testcasesOf d).map fun tc => (tc.datasetId, tc.codename)) =
      ((db.testcasesOf d).map TestcaseRow.codename).map (Prod.mk d.id) := by
    rw [List.map_map]
    refine List.map_congr_left fun tc htc => ?_
    have hid : tc.datasetId = d.id := by simpa using (List.mem_filter.1 htc).2
    rw [hid]
    rfl
  rw [heq] at hpairs
  exact hpairs.of_map _

/-- A dataset of a task.  The kind of the score type is only looked at when dependencies are
declared. -/
def dataset (t : TaskRow) (d : DatasetRow) : Dataset where
  id := d.id
  active := t.activeDatasetId = some d.id
  testcases := (db.testcasesOf d).map fun tc => (tc.codename, tc.isPublic)
  distinct := by
    rw [List.map_map]
    exact db.testcasesOf_codenames_nodup d
  scoreType := d.groupKind.getD .groupMin
  scoreTypeParameters := d.scoreTypeParameters
  scorePrecision := t.scorePrecision
  timeLimit := d.timeLimit

/-- The evaluations of a result, with the codename of their testcase. -/
def evaluationsOf (r : ResultRow) : List Evaluation :=
  (db.evaluations.filter fun e =>
    e.submissionId = r.submissionId && e.datasetId = r.datasetId).filterMap fun e =>
      (db.testcases.find? fun tc => tc.id = e.testcaseId).map fun tc =>
        ⟨tc.codename, e.outcome, e.text, e.executionTime, e.executionMemory⟩

def result (r : ResultRow) : SubmissionResult where
  compilationOutcome := r.compilationOutcome
  compilationTries := r.compilationTries
  evaluated := r.evaluated
  evaluationTries := r.evaluationTries
  evaluations := db.evaluationsOf r

/-- `submission.get_result`. -/
def getResult (s : SubmissionRow) (d : DatasetRow) : Option ResultRow :=
  db.results.find? fun r => r.key = (s.id, d.id)

def submission (s : SubmissionRow) : Submission := ⟨s.id, s.timestamp⟩

/-- `get_datasets_to_judge`. -/
def getDatasetsToJudge (t : TaskRow) : List DatasetRow :=
  (db.datasets.filter fun d => d.taskId = t.id).filter fun d =>
    t.activeDatasetId = some d.id || d.autojudge

/-- The submissions of a contest with their task, or all of them. -/
def submissionsOf (contestId : Option Nat) : List (SubmissionRow × TaskRow) :=
  db.submissions.flatMap fun s =>
    ((db.tasks.find? fun t => t.id = s.taskId).toList.filter fun t =>
      match contestId with
      | none => true
      | some id => t.contestId = some id).map fun t => (s, t)

section

variable (compile : String → Except PyError (String → Bool)) (twoPhase : Bool)

/-- What `submission_get_operations` yields over all submissions and their datasets to judge. -/
def submissionOperations (contestId : Option Nat) : List (ESOperation × Nat × ℤ) :=
  (db.submissionsOf contestId).flatMap fun row =>
    (db.getDatasetsToJudge row.2).flatMap fun d =>
      submissionGetOperations compile twoPhase (db.dataset row.2 d)
        ((db.getResult row.1 d).map db.result) (submission row.1) false

/-- The results that `submission_enqueue_operations` finalizes. -/
def finalizedResults (contestId : Option Nat) : List ResultRow :=
  (db.submissionsOf contestId).flatMap fun row =>
    (db.getDatasetsToJudge row.2).flatMap fun d =>
      (db.getResult row.1 d).toList.filter fun r =>
        (submissionEnqueueOperations compile twoPhase (db.dataset row.2 d) (db.result r)
          (submission row.1) false).1 = .finalized

end

end Database

end Sweeper
end Service
end ContestManagement
