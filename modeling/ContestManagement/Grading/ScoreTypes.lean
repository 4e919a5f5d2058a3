import ContestManagement.Grading.SubtaskDag
import ContestManagement.Lib.FloatArithmetic

/-!
# Group score types

`ScoreTypeGroup` of `cms/grading/scoretypes/abc.py` with its three subclasses
`GroupMin`, `GroupMul` and `GroupThreshold`.  A method that may raise lives in
`Except PyError`, and raises what the source raises first.

Outcomes, fractions and scores are numbers of a type `F`: the source computes with
floats, where a product may overflow or vanish, and where nothing is said of `F` it
is the exact rationals.

Regular expressions are a parameter: `compile` is `re.compile` with the `match`
method of its result.
-/

namespace ContestManagement
namespace Grading

open Lib

/-- How outcomes, fractions and scores are computed. -/
class Fractions (F : Type) where
  /-- `outcome <= threshold`. -/
  atMost (outcome : F) (threshold : ℚ) : Bool
  /-- `round(fraction * max_score, score_precision)`. -/
  scoreOf (scorePrecision : Nat) (fraction : F) (maxScore : ℚ) : F
  /-- The sum of scores, from the first one on. -/
  total : List F → F
  roundTo (scorePrecision : Nat) : F → F
  formatG : F → String

/-- Exact numbers, which are meant where nothing else is said. -/
@[default_instance] instance : Fractions ℚ where
  atMost outcome threshold := outcome ≤ threshold
  scoreOf scorePrecision fraction maxScore :=
    Decimal.roundTo scorePrecision (fraction * maxScore)
  total := List.sum
  roundTo := Decimal.roundTo
  formatG := Decimal.formatG

@[simp] theorem formatG_exact (q : ℚ) : Fractions.formatG q = Decimal.formatG q := rfl

/-- The numbers of the source. -/
instance : Fractions PyFloat where
  atMost := PyFloat.atMost
  scoreOf scorePrecision fraction maxScore :=
    (fraction * PyFloat.ofRat maxScore).roundTo scorePrecision
  total := List.foldl (· + ·) 0
  roundTo := PyFloat.roundTo
  formatG := PyFloat.formatG

/-- The evaluation of a submission on one testcase. -/
structure Evaluation (F : Type := ℚ) where
  codename : String
  outcome : F
  text : List String
  executionTime : Option ℚ
  executionMemory : Option ℤ
  deriving DecidableEq, Repr

/-! ### Messages of `EVALUATION_MESSAGES` -/

def timeoutMessage : String := "Execution timed out"

def skippedMessage : String := "Skipped after screening phase failure"

/-- `SKIPPED_DEPENDENCY_MESSAGE`. -/
def skippedDependencyMessage : String :=
  "Not tested: this subtask depends on subtask %s, which scored no points."

/-- The first text of the evaluation is the one the dependency gate writes. -/
def Evaluation.skippedByDependency {F : Type} (e : Evaluation F) : Bool :=
  e.text.head? = some skippedDependencyMessage

/-- The evaluation of a testcase; a result has at most one for each. -/
def evaluationOf {F : Type} (evaluations : List (Evaluation F)) (codename : String) :
    Except PyError (Evaluation F) :=
  match evaluations.find? fun e => e.codename = codename with
  | some e => .ok e
  | none => .error (.keyError codename)

/-! ### The three reductions -/

inductive GroupKind where
  | groupMin
  | groupMul
  | groupThreshold
  deriving DecidableEq, Repr

/-- The threshold of a parameter in list or dictionary form. -/
def thresholdOf (parameter : PyValue) : Except PyError PyValue :=
  parameter.item 2 "threshold"

section Reduce

variable {F : Type} [OfNat F 0] [LT F] [DecidableLT F] [Fractions F]

/-- `0 < outcome <= threshold`; the threshold is only looked at when needed. -/
def withinThreshold (threshold : PyValue) (outcome : F) : Except PyError Bool :=
  if 0 < outcome then
    match threshold.number? with
    | some bound => .ok (Fractions.atMost outcome bound)
    | none => .error .typeError
  else .ok false

/-- `all(0 < outcome <= threshold for outcome in outcomes)`. -/
def allWithin (threshold : PyValue) : List F → Except PyError Bool
  | [] => .ok true
  | outcome :: rest =>
      match withinThreshold threshold outcome with
      | .ok true => allWithin threshold rest
      | other => other

/-- `min`, of a first outcome and the others: the first one that no other is below. -/
def leastOutcome (first : F) (rest : List F) : F :=
  rest.foldl (fun found outcome => if outcome < found then outcome else found) first

/-- `reduce`. -/
def reduce [OfNat F 1] [Mul F] (kind : GroupKind) (outcomes : List F) (parameter : PyValue) :
    Except PyError F :=
  match kind with
  | .groupMin =>
      match outcomes with
      | [] => .error (.valueError "min() iterable argument is empty")
      | outcome :: rest => .ok (leastOutcome outcome rest)
  | .groupMul =>
      match outcomes with
      | [] => .error .typeError
      | outcome :: rest => .ok (rest.foldl (· * ·) outcome)
  | .groupThreshold => do
      let threshold ← thresholdOf parameter
      let within ← allWithin threshold outcomes
      return if within then 1 else 0

/-- `get_public_outcome`. -/
def getPublicOutcome [OfNat F 1] [LE F] [DecidableLE F] (kind : GroupKind) (outcome : F)
    (parameter : PyValue) : Except PyError String :=
  match kind with
  | .groupThreshold => do
      let threshold ← thresholdOf parameter
      let within ← withinThreshold threshold outcome
      return if within then "Correct" else "Not correct"
  | _ =>
      if outcome ≤ 0 then .ok "Not correct"
      else if 1 ≤ outcome then .ok "Correct"
      else .ok "Partially correct"

end Reduce

/-! ### Reading the parameters -/

/-- `get_max_score`. -/
def getMaxScore (scorePrecision : Nat) (parameter : PyValue) : Except PyError ℚ := do
  let value ← parameter.item 0 "max_score"
  match value.number? with
  | none => .error .typeError
  | some score =>
      if Decimal.roundTo scorePrecision score = score then .ok score
      else .error (.assertionError
        "The max score for a subtask has more precision than the task allows.")

/-- `get_testcases`. -/
def getTestcases (parameter : PyValue) : Except PyError PyValue :=
  parameter.item 1 "testcases"

/-- `get_always_show_testcases`. -/
def getAlwaysShowTestcases (parameter : PyValue) : Bool :=
  match parameter.get? "always_show_testcases" with
  | some value => value.truthy
  | none => false

section Targets

variable (compile : String → Except PyError (String → Bool))

/-- The targets in count form: consecutive runs of the sorted codenames. -/
def countTargets (indices : List String) : ℤ → List ℤ → List (List String)
  | _, [] => []
  | current, t :: rest =>
      slice indices current (current + t) :: countTargets indices (current + t) rest

/-- The target of one regular expression. -/
def regexpTarget (indices : List String) (pattern : String) : Except PyError (List String) := do
  let matches_ ← compile pattern
  let target := indices.filter matches_
  if target = [] then
    .error (.valueError ("No testcase matches against the regexp '" ++ pattern ++ "'"))
  else .ok target

/-- `retrieve_target_testcases`. -/
def retrieveTargetTestcases (parameters : List PyValue) (codenames : List String) :
    Except PyError (List (List String)) := do
  let tParams ← parameters.mapM getTestcases
  let indices := sortedStrings codenames
  match tParams.mapM PyValue.int?, tParams.mapM PyValue.str?, tParams.mapM PyValue.strings? with
  | some counts, _, _ => .ok (countTargets indices 0 counts)
  | none, some patterns, _ => patterns.mapM (regexpTarget compile indices)
  | none, none, some targets => .ok targets
  | none, none, none => .error (.valueError
      ("In the score type parameters, the second value of each element " ++
        "must have the same type (int, unicode or list of strings)"))

/-- `public_testcases[codename]`. -/
def isPublic (publicTestcases : List (String × Bool)) (codename : String) : Except PyError Bool :=
  match publicTestcases.lookup codename with
  | some flag => .ok flag
  | none => .error (.keyError codename)

/-- `all(self.public_testcases[tc_idx] for tc_idx in target)`, which stops at the
first testcase that is not public. -/
def allPublic (publicTestcases : List (String × Bool)) : List String → Except PyError Bool
  | [] => .ok true
  | codename :: rest =>
      match isPublic publicTestcases codename with
      | .ok true => allPublic publicTestcases rest
      | other => other

/-- What one subtask contributes to `max_scores`: its score, whether all of it is
public, and its header. -/
def maxScoreOf (publicTestcases : List (String × Bool)) (scorePrecision : Nat)
    (entry : (PyValue × List String) × Nat) : Except PyError (ℚ × Bool × String) := do
  let score ← getMaxScore scorePrecision entry.1.1
  let isAllPublic ← allPublic publicTestcases entry.1.2
  let index := entry.2
  return (score, isAllPublic, s!"Subtask {index} (" ++ Decimal.formatG score ++ ")")

/-- `max_scores`: the maximum, the public maximum and the headers. -/
def maxScores (parameters : List PyValue) (publicTestcases : List (String × Bool))
    (scorePrecision : Nat) : Except PyError (ℚ × ℚ × List String) := do
  let targets ← retrieveTargetTestcases compile parameters (publicTestcases.map Prod.fst)
  let entries ← (parameters.zip targets).zipIdx.mapM (maxScoreOf publicTestcases scorePrecision)
  return ((entries.map Prod.fst).sum, ((entries.filter fun e => e.2.1).map Prod.fst).sum,
    entries.map fun e => e.2.2)

end Targets

/-- A score type that its constructor has accepted. -/
structure ScoreTypeGroup where
  kind : GroupKind
  parameters : List PyValue
  publicTestcases : List (String × Bool)
  scorePrecision : Nat
  maxScore : ℚ
  maxPublicScore : ℚ
  rankingHeaders : List String
  dependencies : List (List Nat)
  hideDependency : List Bool

/-- The constructor. -/
def ScoreTypeGroup.create (compile : String → Except PyError (String → Bool)) (kind : GroupKind)
    (parameters : PyValue) (publicTestcases : List (String × Bool)) (scorePrecision : Nat) :
    Except PyError ScoreTypeGroup := do
  let (parameters, maxScore, maxPublicScore, rankingHeaders) ←
    (do
      let parameters ← parameters.elements
      let maxima ← maxScores compile parameters publicTestcases scorePrecision
      return (parameters, maxima) : Except PyError (List PyValue × ℚ × ℚ × List String)).mapError
        (PyError.because ("Unable to instantiate score type (probably due to invalid " ++
          "values for the score type parameters)"))
  let dependencies ← parseDependencies parameters
  let hideDependency ← parseHideDependency parameters
  return {
    kind, parameters, publicTestcases, scorePrecision, maxScore, maxPublicScore, rankingHeaders,
    dependencies, hideDependency }

/-! ### Score details -/

/-- The row of a testcase in the score details. -/
structure TestcaseDetails where
  idx : String
  outcome : String
  text : List String
  time : Option ℚ
  timeLimit : Option ℚ
  timeLimitWasExceeded : Bool
  memory : Option ℤ
  showInRestrictedFeedback : Bool
  showInOiRestrictedFeedback : Bool
  skipped : Bool
  deriving DecidableEq, Repr

/-- A row, or only the codename. -/
inductive TestcaseRow where
  | full (details : TestcaseDetails)
  | bare (idx : String)
  deriving DecidableEq, Repr

structure SubtaskScore (F : Type := ℚ) where
  scoreFraction : F
  score : F
  maxScore : ℚ
  deriving DecidableEq, Repr

/-- The details of a subtask; its scores are missing where they must not be
revealed. -/
structure SubtaskDetails (F : Type := ℚ) where
  idx : Nat
  scores : Option (SubtaskScore F)
  testcases : List TestcaseRow
  zeroedByDependency : Option Nat
  deriving DecidableEq, Repr

/-- `without_dependency_messages`. -/
def SubtaskDetails.withoutDependencyMessages {F : Type} (subtask : SubtaskDetails F) :
    SubtaskDetails F :=
  { subtask with
    zeroedByDependency := none
    testcases := subtask.testcases.map fun row =>
      match row with
      | .full tc =>
          if tc.skipped ∨ tc.text.head? = some skippedDependencyMessage then .bare tc.idx else row
      | .bare _ => row }

/-- A testcase of a subtask as the loop of `compute_score` sees it. -/
structure ScoredTestcase (F : Type := ℚ) where
  details : TestcaseDetails
  score : F
  isPublic : Bool

/-- What the iteration for one subtask adds to the result. -/
structure SubtaskEntry (F : Type := ℚ) where
  subtask : SubtaskDetails F
  publicSubtask : SubtaskDetails F
  roundedScore : F
  isAllPublic : Bool
  rankingDetail : String

/-- The five values of `compute_score`. -/
structure ScoreResult (F : Type := ℚ) where
  score : F
  subtasks : List (SubtaskDetails F)
  publicScore : F
  publicSubtasks : List (SubtaskDetails F)
  rankingDetails : List String
  deriving DecidableEq, Repr

/-- The first public testcase with the lowest score, after the one found so far. -/
def firstLowest {F : Type} [LT F] [DecidableLT F] :
    Option (String × F) → List (ScoredTestcase F) → Option String
  | lowest, [] => lowest.map Prod.fst
  | lowest, tc :: rest =>
      if tc.isPublic ∧ (∀ found ∈ lowest, tc.score < found.2) then
        firstLowest (some (tc.details.idx, tc.score)) rest
      else firstLowest lowest rest

/-- The part of a submission result that scoring reads. -/
structure ScoredResult (F : Type := ℚ) where
  evaluated : Bool
  evaluations : List (Evaluation F)
  /-- `dataset.time_limit`. -/
  timeLimit : Option ℚ
  /-- `task.score_precision`. -/
  scorePrecision : Nat

namespace ScoreTypeGroup

section Scores

variable {F : Type} [OfNat F 0] [OfNat F 1] [Mul F] [LT F] [DecidableLT F] [LE F] [DecidableLE F]
  [Fractions F]

/-- The iteration for one testcase. -/
def scoreTestcase (st : ScoreTypeGroup) (result : ScoredResult F) (parameter : PyValue)
    (codename : String) : Except PyError (ScoredTestcase F) := do
  let evaluation ← evaluationOf result.evaluations codename
  let outcome ← getPublicOutcome st.kind evaluation.outcome parameter
  let isPublic ← Grading.isPublic st.publicTestcases codename
  return {
    details := {
      idx := codename
      outcome := outcome
      text := evaluation.text
      time := evaluation.executionTime
      timeLimit := result.timeLimit
      timeLimitWasExceeded := evaluation.text = [timeoutMessage]
      memory := evaluation.executionMemory
      showInRestrictedFeedback := isPublic
      showInOiRestrictedFeedback := isPublic
      skipped := evaluation.skippedByDependency }
    score := evaluation.outcome
    isPublic := isPublic }

/-- The feedback marks, once the first lowest testcase is known. -/
def markFeedback (lowest : Option String) (tc : ScoredTestcase F) : ScoredTestcase F :=
  match lowest with
  | some first =>
      if tc.isPublic then
        { tc with details := { tc.details with
            showInRestrictedFeedback := tc.details.idx ≤ first
            showInOiRestrictedFeedback := tc.details.idx = first } }
      else tc
  | none => tc

/-- The fraction of a subtask by its own testcases. -/
def ownFraction (st : ScoreTypeGroup) (evaluations : List (Evaluation F)) (parameter : PyValue)
    (target : List String) : Except PyError F := do
  let outcomes ← target.mapM fun codename =>
    (evaluationOf evaluations codename).map Evaluation.outcome
  reduce st.kind outcomes parameter

/-- The iteration for one subtask. -/
def scoreSubtask (st : ScoreTypeGroup) (result : ScoredResult F) (zeroed : Nat → Option Nat)
    (entry : (PyValue × List String) × Nat) : Except PyError (SubtaskEntry F) := do
  let parameter := entry.1.1
  let target := entry.1.2
  let index := entry.2
  let testcases ← target.mapM (st.scoreTestcase result parameter)
  let ownFraction ← st.ownFraction result.evaluations parameter target
  let fraction := if (zeroed index).isSome then 0 else ownFraction
  let maxScore ← getMaxScore st.scorePrecision parameter
  let roundedScore := Fractions.scoreOf result.scorePrecision fraction maxScore
  let lowest := if ownFraction < 1 ∧ !getAlwaysShowTestcases parameter then
    firstLowest none testcases else none
  let marked := testcases.map (markFeedback lowest)
  let isAllPublic ← allPublic st.publicTestcases target
  let subtask : SubtaskDetails F := {
    idx := index
    scores := some ⟨fraction, roundedScore, maxScore⟩
    testcases := marked.map fun tc => .full tc.details
    zeroedByDependency := zeroed index }
  let publicSubtask : SubtaskDetails F :=
    if isAllPublic then subtask
    else {
      idx := index
      scores := none
      testcases := marked.map fun tc =>
        if tc.isPublic then .full tc.details else .bare tc.details.idx
      zeroedByDependency := if marked.any ScoredTestcase.isPublic then zeroed index else none }
  return {
    subtask := subtask
    publicSubtask :=
      if st.hideDependency.getD index false ∧ (zeroed index).isSome then
        publicSubtask.withoutDependencyMessages
      else publicSubtask
    roundedScore := roundedScore
    isAllPublic := isAllPublic
    rankingDetail := Fractions.formatG roundedScore }

/-- The dependencies that zero each subtask. -/
def zeroed (st : ScoreTypeGroup) (evaluations : List (Evaluation F))
    (targets : List (List String)) : Except PyError (Nat → Option Nat) :=
  if st.dependencies.any fun numbers => numbers ≠ [] then do
    let fractions ← (targets.zip st.parameters).mapM fun entry =>
      st.ownFraction evaluations entry.2 entry.1
    zeroedBy (fun index => fractions.getD index 0) st.dependencies
  else .ok fun _ => none

/-- `compute_score`. -/
def computeScore (st : ScoreTypeGroup) (compile : String → Except PyError (String → Bool))
    (result : ScoredResult F) : Except PyError (ScoreResult F) :=
  if ¬result.evaluated then
    .ok ⟨0, [], 0, [], st.parameters.map fun _ => Fractions.formatG (0 : F)⟩
  else do
    let targets ← retrieveTargetTestcases compile st.parameters
      (st.publicTestcases.map Prod.fst)
    let zeroed ← st.zeroed result.evaluations targets
    let entries ← (st.parameters.zip targets).zipIdx.mapM (st.scoreSubtask result zeroed)
    return {
      score := Fractions.roundTo result.scorePrecision
        (Fractions.total (entries.map SubtaskEntry.roundedScore))
      subtasks := entries.map SubtaskEntry.subtask
      publicScore :=
        Fractions.total ((entries.filter SubtaskEntry.isAllPublic).map SubtaskEntry.roundedScore)
      publicSubtasks := entries.map SubtaskEntry.publicSubtask
      rankingDetails := entries.map SubtaskEntry.rankingDetail }

end Scores

end ScoreTypeGroup

end Grading
end ContestManagement
