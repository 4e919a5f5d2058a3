import ContestManagement.Grading.Gates
import ContestManagement.Grading.Sum

/-!
# Transactions on a submission result

The statements that ScoringService and EvaluationService send to the database for one
submission result, under READ COMMITTED with row locks.  `_score_sync` locks the row,
checks `needs_scoring`, reads the evaluations, writes the five score fields and
commits.  EvaluationService invalidates, writes the results of compilations and
evaluations and sets the evaluation outcome; `post_finish_lock` leaves it one
transaction at a time.  `ScoringService.invalidate_submission` blanks the score.

An `UPDATE` of the row waits while another transaction holds its lock, and then sees
the row as it was committed.  Inserting an evaluation does not wait, because scoring
locks the row with `key_share`.  A row that does not exist yet is one in which nothing
is set.  A savepoint that is rolled back leaves its transaction as it was, so its
statements do not appear here.
-/

namespace ContestManagement
namespace Service

open Lib Grading

/-- The columns of a submission result that these transactions write.  The five score
fields are set together and blanked together. -/
structure ResultRow where
  compilationOutcome : Option CompilationOutcome
  /-- `evaluated()`: the evaluation outcome is set. -/
  evaluated : Bool
  scores : Option Scores
  deriving DecidableEq, Repr

namespace ResultRow

/-- `compilation_failed`. -/
def compilationFailed (row : ResultRow) : Bool :=
  row.compilationOutcome = some .fail

/-- `scored`. -/
def scored (row : ResultRow) : Bool :=
  row.scores.isSome

/-- `needs_scoring`. -/
def needsScoring (row : ResultRow) : Bool :=
  (row.compilationFailed || row.evaluated) && !row.scored

/-- `invalidate_score`. -/
def invalidateScore (row : ResultRow) : ResultRow :=
  { row with scores := none }

/-- `invalidate_evaluation`, but for the evaluations. -/
def invalidateEvaluation (row : ResultRow) : ResultRow :=
  { row.invalidateScore with evaluated := false }

/-- `invalidate_compilation`, but for the evaluations. -/
def invalidateCompilation (row : ResultRow) : ResultRow :=
  { row.invalidateEvaluation with compilationOutcome := none }

/-- `set_compilation_outcome`. -/
def setCompilationOutcome (row : ResultRow) (success : Bool) : ResultRow :=
  { row with compilationOutcome := some (if success then .ok else .fail) }

/-- `set_evaluation_outcome`. -/
def setEvaluationOutcome (row : ResultRow) : ResultRow :=
  { row with evaluated := true }

end ResultRow

/-- The flushes of EvaluationService that blank a result. -/
inductive Blanking where
  /-- `invalidate_compilation`. -/
  | compilation
  /-- `invalidate_evaluation`, of one testcase or of all. -/
  | evaluation (testcase : Option String)
  /-- `to_submission` of a compilation job: it blanks everything, then sets the outcome. -/
  | compiled (success : Bool)
  deriving DecidableEq, Repr

namespace Blanking

/-- The `UPDATE` of the row. -/
def update (row : ResultRow) : Blanking → ResultRow
  | compilation => row.invalidateCompilation
  | evaluation _ => row.invalidateEvaluation
  | compiled success => row.invalidateCompilation.setCompilationOutcome success

/-- The `DELETE` of the evaluations: what it leaves. -/
def delete (evaluations : List Evaluation) : Blanking → List Evaluation
  | evaluation (some codename) => evaluations.filter fun e => e.codename ≠ codename
  | _ => []

end Blanking

/-- The second statement of a flush that has executed its first one. -/
inductive Owed where
  | update (blanking : Blanking)
  | deletion (blanking : Blanking)
  deriving DecidableEq, Repr

/-- A transaction of EvaluationService.  Nobody else writes evaluations, so those it
sees are its own. -/
structure Transaction where
  /-- The row as the transaction has updated it; it then holds the lock. -/
  row : Option ResultRow
  evaluations : List Evaluation
  owed : Option Owed
  deriving DecidableEq, Repr

/-- How far `_score_sync` has got. -/
inductive Scoring where
  | idle
  | locked (row : ResultRow)
  | loaded (row : ResultRow) (evaluations : List Evaluation)
  | written (scores : Scores)
  deriving DecidableEq, Repr

def Scoring.isIdle : Scoring → Bool
  | idle => true
  | _ => false

/-- The committed result, and the transactions in progress. -/
structure Database where
  row : ResultRow
  evaluations : List Evaluation
  scoring : Scoring
  /-- `invalidate_submission` of ScoringService has updated the row. -/
  clearing : Bool
  service : Option Transaction
  deriving DecidableEq, Repr

/-- The statements.  Which one comes next is up to the processes. -/
inductive Statement where
  | begin
  /-- The first statement of a flush is its `UPDATE`, or its `DELETE`. -/
  | blankRow (blanking : Blanking)
  | deleteEvaluations (blanking : Blanking)
  /-- The second statement of the flush. -/
  | finishFlush
  /-- The result of an evaluation, or one that a gate makes up. -/
  | insertEvaluation (evaluation : Evaluation)
  | setEvaluationOutcome
  | commit
  | rollback
  | lockRow
  | readEvaluations
  | writeScores
  | commitScores
  /-- `_score_sync` returns or raises before it commits. -/
  | abandonScoring
  | clearScores
  | commitClearing
  | rollbackClearing

/-- The dataset of the result. -/
structure ScoringSetup where
  compile : String → Except PyError (String → Bool)
  scoreType : ScoreType
  codenames : List String
  distinct : codenames.Nodup
  timeLimit : Option ℚ
  scorePrecision : Nat

namespace ScoringSetup

/-- `compute_score` of a result with these evaluations. -/
def computeScore (setup : ScoringSetup) (evaluated : Bool) (evaluations : List Evaluation) :
    Except PyError Scores :=
  setup.scoreType.computeScore setup.compile
    ⟨evaluated, evaluations, setup.timeLimit, setup.scorePrecision⟩

end ScoringSetup

namespace Database

/-- No transaction holds the lock on the row. -/
def rowFree (db : Database) : Bool :=
  db.scoring.isIdle && !db.clearing && db.service.all fun tx => tx.row.isNone

/-- The row as a transaction of EvaluationService sees it. -/
def rowSeenBy (db : Database) (tx : Transaction) : ResultRow :=
  tx.row.getD db.row

/-- An `UPDATE` by EvaluationService; not enabled while another transaction holds the
lock. -/
def updateRow (db : Database) (tx : Transaction) (update : ResultRow → ResultRow) :
    Option Transaction :=
  if tx.row.isSome || db.rowFree then
    some { tx with row := some (update (db.rowSeenBy tx)) }
  else none

variable (setup : ScoringSetup)

/-- A statement of the transaction of EvaluationService that is in progress. -/
def stepService (db : Database) (tx : Transaction) : Statement → Option Database
  | .blankRow blanking =>
      if tx.owed.isNone then
        (db.updateRow tx blanking.update).map fun tx =>
          { db with service := some { tx with owed := some (.deletion blanking) } }
      else none
  | .deleteEvaluations blanking =>
      if tx.owed.isNone then
        some { db with service := some { tx with
          evaluations := blanking.delete tx.evaluations
          owed := some (.update blanking) } }
      else none
  | .finishFlush =>
      match tx.owed with
      | some (.update blanking) =>
          (db.updateRow tx blanking.update).map fun tx =>
            { db with service := some { tx with owed := none } }
      | some (.deletion blanking) =>
          some { db with service := some { tx with
            evaluations := blanking.delete tx.evaluations
            owed := none } }
      | none => none
  | .insertEvaluation evaluation =>
      if tx.owed.isNone then
        -- A testcase that the dataset lacks, or that is evaluated already, raises inside
        -- the savepoint.
        if evaluation.codename ∈ setup.codenames ∧
            evaluation.codename ∉ tx.evaluations.map Evaluation.codename then
          some { db with service := some { tx with
            evaluations := tx.evaluations ++ [evaluation] } }
        else some db
      else none
  | .setEvaluationOutcome =>
      if tx.owed.isNone ∧ tx.evaluations.length = setup.codenames.length then
        -- The outcome is a column like any other: setting it to what it is sends nothing.
        if (db.rowSeenBy tx).evaluated then some db
        else (db.updateRow tx ResultRow.setEvaluationOutcome).map fun tx =>
          { db with service := some tx }
      else none
  | .commit =>
      if tx.owed.isNone then
        some { db with
          row := db.rowSeenBy tx
          evaluations := tx.evaluations
          service := none }
      else none
  | .rollback => some { db with service := none }
  | _ => none

/-- A statement of ScoringService, or the start of a transaction of EvaluationService. -/
def stepOther (db : Database) : Statement → Option Database
  | .begin =>
      if db.service.isNone then some { db with service := some ⟨none, db.evaluations, none⟩ }
      else none
  | .lockRow => if db.rowFree then some { db with scoring := .locked db.row } else none
  | .readEvaluations =>
      match db.scoring with
      | .locked row =>
          if row.needsScoring then some { db with scoring := .loaded row db.evaluations } else none
      | _ => none
  | .writeScores =>
      match db.scoring with
      | .loaded row evaluations =>
          match setup.computeScore row.evaluated evaluations with
          | .ok scores => some { db with scoring := .written scores }
          | .error _ => none
      | _ => none
  | .commitScores =>
      match db.scoring with
      | .written scores =>
          some { db with row := { db.row with scores := some scores }, scoring := .idle }
      | _ => none
  | .abandonScoring => some { db with scoring := .idle }
  | .clearScores => if db.rowFree then some { db with clearing := true } else none
  | .commitClearing =>
      if db.clearing then some { db with row := db.row.invalidateScore, clearing := false }
      else none
  | .rollbackClearing => some { db with clearing := false }
  | _ => none

/-- One statement. -/
def step (db : Database) (statement : Statement) : Option Database :=
  (stepOther setup db statement).or
    (db.service.bind fun tx => stepService setup db tx statement)

end Database

/-- The transactions on one submission result, starting before it is compiled. -/
def databaseMachine (setup : ScoringSetup) : Machine Database Statement where
  init db := db = ⟨⟨none, false, none⟩, [], .idle, false, none⟩
  step := Database.step setup

end Service
end ContestManagement
