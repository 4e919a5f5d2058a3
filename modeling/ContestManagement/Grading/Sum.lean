import ContestManagement.Grading.ScoreTypes

/-!
# The score type `Sum`, and score types in general

`Sum` adds the outcomes of the testcases, multiplied by its parameter.  Together with
the group score types these are the score types that a dataset can have.
-/

namespace ContestManagement
namespace Grading

open Lib

/-- The score type `Sum` of a dataset. -/
structure Sum where
  parameters : ℚ
  publicTestcases : List (String × Bool)

/-- The row of a testcase in the details of `Sum`, or only its codename. -/
inductive SumRow where
  | full (idx : String) (outcome : String) (text : List String) (time : Option ℚ)
      (memory : Option ℤ)
  | bare (idx : String)
  deriving DecidableEq, Repr

/-- The five values of `compute_score`; the ranking details are empty. -/
structure SumResult where
  score : ℚ
  testcases : List SumRow
  publicScore : ℚ
  publicTestcases : List SumRow
  rankingDetails : List String
  deriving DecidableEq, Repr

namespace Sum

/-- `get_public_outcome`. -/
def getPublicOutcome (st : Sum) (outcome : ℚ) : String :=
  if outcome ≤ 0 then "Not correct"
  else if st.parameters ≤ outcome then "Correct"
  else "Partially correct"

/-- The iteration for one testcase: its score, its row and its public row. -/
def scoreTestcase (st : Sum) (evaluations : List Evaluation) (idx : String) :
    Except PyError (ℚ × Bool × SumRow × SumRow) := do
  let evaluation ← evaluationOf evaluations idx
  let thisScore := evaluation.outcome * st.parameters
  let row := SumRow.full idx (st.getPublicOutcome thisScore) evaluation.text
    evaluation.executionTime evaluation.executionMemory
  let isPublic ← isPublic st.publicTestcases idx
  return (thisScore, isPublic, row, if isPublic then row else .bare idx)

/-- `compute_score`. -/
def computeScore (st : Sum) (result : ScoredResult) : Except PyError SumResult :=
  if ¬result.evaluated then .ok ⟨0, [], 0, [], []⟩
  else do
    let indices := sortedStrings (st.publicTestcases.map Prod.fst)
    let rows ← indices.mapM (st.scoreTestcase result.evaluations)
    return {
      score := (rows.map Prod.fst).sum
      testcases := rows.map fun row => row.2.2.1
      publicScore := ((rows.filter fun row => row.2.1).map Prod.fst).sum
      publicTestcases := rows.map fun row => row.2.2.2
      rankingDetails := [] }

end Sum

/-- A score type that its constructor has accepted. -/
inductive ScoreType where
  | sum (st : Sum)
  | group (st : ScoreTypeGroup)

/-- The five score fields that a score type computes. -/
inductive Scores where
  | sum (result : SumResult)
  | group (result : ScoreResult)
  deriving DecidableEq, Repr

namespace ScoreType

/-- `compute_score`. -/
def computeScore (compile : String → Except PyError (String → Bool)) (result : ScoredResult) :
    ScoreType → Except PyError Scores
  | sum st => (st.computeScore result).map .sum
  | group st => (st.computeScore compile result).map .group

/-- A result that is not evaluated has the score of a failed compilation: the
evaluations it may have are not read. -/
theorem computeScore_unevaluated {compile : String → Except PyError (String → Bool)}
    {result result' : ScoredResult} (h : result.evaluated = false) (h' : result'.evaluated = false)
    (st : ScoreType) : st.computeScore compile result = st.computeScore compile result' := by
  cases st with
  | sum st => simp [computeScore, Sum.computeScore, h, h']
  | group st => simp [computeScore, ScoreTypeGroup.computeScore, h, h']

end ScoreType

end Grading
end ContestManagement
