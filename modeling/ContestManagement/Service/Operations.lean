import Mathlib.Data.List.Basic
import Mathlib.Tactic

/-!
# The operations of EvaluationService

`ESOperation` of `cms/service/esoperations.py`, and the operations that an
invalidation has to stop (`get_relevant_operations`).
-/

namespace ContestManagement
namespace Service

/-- `ESOperation.type_`. -/
inductive OperationType where
  | compilation
  | evaluation
  | userTestCompilation
  | userTestEvaluation
  deriving DecidableEq, Repr

/-- `ESOperation`; its `__eq__` compares these five fields. -/
structure ESOperation where
  type : OperationType
  objectId : Nat
  datasetId : Nat
  testcaseCodename : Option String
  archiveSandbox : Bool
  deriving DecidableEq, Repr

namespace ESOperation

/-- What a result is discarded by: everything but `archive_sandbox`. -/
def key (op : ESOperation) : OperationType × Nat × Nat × Option String :=
  (op.type, op.objectId, op.datasetId, op.testcaseCodename)

/-- The twin queued by an invalidation that asked to archive the sandbox. -/
def archiving (op : ESOperation) : ESOperation :=
  { op with archiveSandbox := true }

end ESOperation

/-- The level of an invalidation. -/
inductive Level where
  | compilation
  | evaluation
  deriving DecidableEq, Repr

/-- What `get_relevant_operations` reads of a dataset. -/
structure JudgedDataset where
  id : Nat
  testcases : List String
  deriving DecidableEq, Repr

/-- What `get_relevant_operations` reads of a submission: its id, and the datasets
of its task. -/
structure JudgedSubmission where
  id : Nat
  datasets : List JudgedDataset
  deriving DecidableEq, Repr

namespace JudgedSubmission

/-- The datasets involved: the one asked for when the task has it, or all. -/
def involvedDatasets (submission : JudgedSubmission) (datasetId : Option Nat) :
    List JudgedDataset :=
  match datasetId with
  | none => submission.datasets
  | some id =>
      match submission.datasets.find? fun dataset => dataset.id = id with
      | some dataset => [dataset]
      | none => submission.datasets

end JudgedSubmission

/-- `get_relevant_operations`. -/
def getRelevantOperations (level : Level) (submissions : List JudgedSubmission)
    (datasetId : Option Nat) : List ESOperation :=
  submissions.flatMap fun submission =>
    (submission.involvedDatasets datasetId).flatMap fun dataset =>
      (match level with
        | .compilation => [⟨.compilation, submission.id, dataset.id, none, false⟩]
        | .evaluation => []) ++
      dataset.testcases.map fun codename =>
        ⟨.evaluation, submission.id, dataset.id, some codename, false⟩

/-- The operations that `_invalidate_submission_sync` dequeues, each with its twin. -/
def withTwins (operations : List ESOperation) : List ESOperation :=
  operations.flatMap fun op => [op, op.archiving]

/-- An operation matches an invalidation when it works on one of the submissions,
on an involved dataset, and at the level or below. -/
def Invalidates (level : Level) (submissions : List JudgedSubmission) (datasetId : Option Nat)
    (op : ESOperation) : Prop :=
  ∃ submission ∈ submissions, ∃ dataset ∈ submission.involvedDatasets datasetId,
    op.objectId = submission.id ∧ op.datasetId = dataset.id ∧
      ((level = .compilation ∧ op.type = .compilation ∧ op.testcaseCodename = none) ∨
        (op.type = .evaluation ∧ ∃ codename ∈ dataset.testcases,
          op.testcaseCodename = some codename))

theorem mem_getRelevantOperations {level : Level} {submissions : List JudgedSubmission}
    {datasetId : Option Nat} {op : ESOperation} :
    op ∈ getRelevantOperations level submissions datasetId ↔
      Invalidates level submissions datasetId op ∧ op.archiveSandbox = false := by
  simp only [getRelevantOperations, Invalidates, List.mem_flatMap, List.mem_append,
    List.mem_map]
  constructor
  · rintro ⟨submission, hsubmission, dataset, hdataset, hop | ⟨codename, hcodename, rfl⟩⟩
    · cases level with
      | compilation =>
          rw [List.mem_singleton] at hop
          subst hop
          exact ⟨⟨submission, hsubmission, dataset, hdataset, rfl, rfl,
            .inl ⟨rfl, rfl, rfl⟩⟩, rfl⟩
      | evaluation => cases hop
    · exact ⟨⟨submission, hsubmission, dataset, hdataset, rfl, rfl,
        .inr ⟨rfl, codename, hcodename, rfl⟩⟩, rfl⟩
  · rintro ⟨⟨submission, hsubmission, dataset, hdataset, hobject, hdatasetId, hcase⟩, harchive⟩
    refine ⟨submission, hsubmission, dataset, hdataset, ?_⟩
    obtain ⟨type, objectId, opDataset, testcaseCodename, archiveSandbox⟩ := op
    simp only at hobject hdatasetId hcase harchive
    subst hobject hdatasetId harchive
    rcases hcase with ⟨rfl, rfl, rfl⟩ | ⟨rfl, codename, hcodename, rfl⟩
    · exact .inl (List.mem_singleton_self _)
    · exact .inr ⟨codename, hcodename, rfl⟩

/-- Both twins of every matching operation are dequeued. -/
theorem mem_withTwins_of_invalidates {level : Level} {submissions : List JudgedSubmission}
    {datasetId : Option Nat} {op : ESOperation} (h : Invalidates level submissions datasetId op) :
    op ∈ withTwins (getRelevantOperations level submissions datasetId) := by
  have hplain : { op with archiveSandbox := false } ∈
      getRelevantOperations level submissions datasetId :=
    mem_getRelevantOperations.2 ⟨h, rfl⟩
  refine List.mem_flatMap.2 ⟨_, hplain, ?_⟩
  cases hop : op.archiveSandbox with
  | false =>
      have heq : op = { op with archiveSandbox := false } := by rw [← hop]
      rw [← heq]
      exact List.mem_cons_self
  | true =>
      have heq : op = ESOperation.archiving { op with archiveSandbox := false } := by
        rw [ESOperation.archiving, ← hop]
      exact List.mem_cons_of_mem _ (List.mem_singleton.2 heq)

end Service
end ContestManagement
