import ContestManagement.Lib.Decimal
import ContestManagement.Ranking.Entities

/-!
# The score of a user for a task

`Score` of `cmsranking/Scoring.py`.  It keeps the submissions of one user for one task with
their current results, the subchanges in the order of their time and key, and what the
changes applied so far have led to: the scores of the released submissions, the last
submission, and the history of the score.

A submission that `Score` holds is an object of its own here, the `Submission` with its
results, and `_last` is its key: no submission is replaced without a reset.  Scores are
exact rationals, and nothing goes on with a detail that `float` reads as another number.
-/

namespace ContestManagement
namespace Ranking

open Lib

/-- A submission with the results that the changes gave it. -/
structure Scored where
  submission : Submission
  score : ℚ
  token : Bool
  extra : List String
  deriving DecidableEq

namespace Scored

/-- The results of a submission that no change has reached. -/
def unscored (s : Submission) : Scored := ⟨s, 0, false, []⟩

/-- The results after a change; what the change leaves out stays. -/
def apply (s : Scored) (change : Subchange) : Scored :=
  { s with
    score := change.score.getD s.score
    token := change.token.getD s.token
    extra := change.extra.getD s.extra }

/-- `map(float, s.extra or [s.score])`. -/
def column (s : Scored) : Except PyError (List ℚ) :=
  if s.extra = [] then .ok [s.score]
  else s.extra.mapM fun text =>
    match Decimal.read text with
    | some (.finite q) => .ok q
    | some _ => .error .notFinite
    | none => .error (.valueError ("could not convert string to float: '" ++ text ++ "'"))

end Scored

/-- `max(values, default=0.0)`. -/
def maxDefault : List ℚ → ℚ
  | [] => 0
  | q :: rest => rest.foldl max q

/-- `zip_longest(*columns, fillvalue=0.0)`. -/
def zipLongest (columns : List (List ℚ)) : List (List ℚ) :=
  (List.range ((columns.map List.length).foldr max 0)).map fun row =>
    columns.map fun column => column.getD row 0

/-- `Score`. -/
structure Score where
  submissions : Dict String Scored
  changes : List (String × Subchange)
  released : List ℚ
  last : Option String
  history : List (ℤ × ℚ)
  scoreMode : String
  deriving DecidableEq

/-- The order of the changes: by time, and by key at the same time. -/
def changeBefore (a b : String × Subchange) : Bool :=
  a.2.time < b.2.time || (a.2.time = b.2.time && a.1 < b.1)

/-- Put a change before the first one that comes after it. -/
def insertChange (change : String × Subchange) : List (String × Subchange) → List (String × Subchange)
  | [] => []
  | c :: rest =>
      if changeBefore change c then change :: c :: rest else c :: insertChange change rest

namespace Score

def new (scoreMode : String) : Score := ⟨Dict.empty, [], [], none, [], scoreMode⟩

def getScore (sc : Score) : ℚ :=
  match sc.history.getLast? with
  | some entry => entry.2
  | none => 0

/-- `_last`. -/
def lastSubmission (sc : Score) : Option Scored :=
  sc.last.bind sc.submissions.get?

def scoreds (sc : Score) : List Scored :=
  sc.submissions.items.map Prod.snd

/-- The score that the mode gives to the current results. -/
def value (sc : Score) : Except PyError ℚ :=
  if sc.scoreMode = "max" then .ok (maxDefault (sc.scoreds.map Scored.score))
  else if sc.scoreMode = "max_subtask" then do
    let columns ← sc.scoreds.mapM Scored.column
    return ((zipLongest columns).map maxDefault).sum
  else if sc.scoreMode = "max_tokened_last" then
    .ok (max (maxDefault (sc.released ++ [0])) ((sc.lastSubmission.map Scored.score).getD 0))
  else .error (.valueError ("Unexpected score mode '" ++ sc.scoreMode ++ "'"))

/-- `NumberSet.remove`. -/
def unrelease (released : List ℚ) (score : ℚ) : Except PyError (List ℚ) :=
  if score ∈ released then .ok (released.erase score)
  else .error (.valueError "list.remove(x): x not in list")

/-- Append a score to the history if it differs from the last one. -/
def note (sc : Score) (time : ℤ) (score : ℚ) : Score :=
  if score ≠ sc.getScore then { sc with history := sc.history ++ [(time, score)] } else sc

/-- Whether a change makes its submission the last one. -/
def becomesLast (sc : Score) (s : Scored) (change : Subchange) : Bool :=
  change.score.isSome &&
    match sc.lastSubmission with
    | none => true
    | some last => last.submission.time < s.submission.time

/-- The released scores without that of a submission. -/
def releasedWithout (sc : Score) (s : Scored) : Except PyError (List ℚ) :=
  if s.token then unrelease sc.released s.score else .ok sc.released

/-- The results after a change to a submission, when `released` is left of the released
scores. -/
def applied (sc : Score) (change : Subchange) (s : Scored) (released : List ℚ) : Score :=
  { sc with
    submissions := sc.submissions.set change.submission (s.apply change)
    released := if (s.apply change).token then released ++ [(s.apply change).score] else released
    last := if sc.becomesLast (s.apply change) change then some change.submission else sc.last }

/-- The results after a change, before the score is computed. -/
def applyChange (sc : Score) (change : Subchange) : Except PyError Score :=
  match sc.submissions.get? change.submission with
  | none => .error (.keyError change.submission)
  | some s => do
      let released ← sc.releasedWithout s
      return sc.applied change s released

def appendChange (sc : Score) (change : Subchange) : Except PyError Score := do
  let sc ← sc.applyChange change
  let score ← sc.value
  return sc.note change.time score

/-- Everything but the submissions and the changes deleted. -/
def cleared (sc : Score) : Score :=
  { sc with
    submissions := sc.submissions.mapValues fun s => Scored.unscored s.submission
    released := []
    last := none
    history := [] }

/-- Append changes, one at a time. -/
def appendChanges (sc : Score) (changes : List (String × Subchange)) : Except PyError Score :=
  changes.foldlM (fun sc change => sc.appendChange change.2) sc

def resetHistory (sc : Score) : Except PyError Score :=
  sc.cleared.appendChanges sc.changes

/-- The log entry of a change reads its submission. -/
def logged (sc : Score) (change : Subchange) : Except PyError Score :=
  match sc.submissions.get? change.submission with
  | some _ => .ok sc
  | none => .error (.keyError change.submission)

/-- Whether a change comes behind all the others. -/
def isNewest (sc : Score) (change : String × Subchange) : Bool :=
  match sc.changes.getLast? with
  | none => true
  | some last => changeBefore last change

def createSubchange (sc : Score) (key : String) (change : Subchange) : Except PyError Score :=
  if sc.isNewest (key, change) then
    { sc with changes := sc.changes ++ [(key, change)] }.appendChange change
  else do
    let sc ← { sc with changes := insertChange (key, change) sc.changes }.resetHistory
    sc.logged change

def updateSubchange (sc : Score) (key : String) (change : Subchange) : Except PyError Score := do
  let replaced := sc.changes.map fun c => if c.1 = key then (key, change) else c
  let sc ← { sc with changes := replaced }.resetHistory
  sc.logged change

def deleteSubchange (sc : Score) (key : String) : Except PyError Score :=
  { sc with changes := sc.changes.filter fun c => c.1 ≠ key }.resetHistory

def createSubmission (sc : Score) (key : String) (s : Submission) : Score :=
  { sc with submissions := sc.submissions.set key (Scored.unscored s) }

def updateSubmission (sc : Score) (key : String) (s : Submission) : Except PyError Score :=
  { sc with submissions := sc.submissions.set key (Scored.unscored s) }.resetHistory

def deleteSubmission (sc : Score) (key : String) : Except PyError Score :=
  match sc.submissions.get? key with
  | none => .ok sc
  | some _ =>
      { sc with
        submissions := sc.submissions.erase key
        changes := sc.changes.filter fun c => c.2.submission ≠ key }.resetHistory

def updateScoreMode (sc : Score) (scoreMode : String) : Score :=
  { sc with scoreMode := scoreMode }

/-! ## The score and the submissions at a time -/

/-- `score_at`. -/
def scoreAt (sc : Score) (t : ℤ) : ℚ :=
  match (sc.history.takeWhile fun entry => entry.1 ≤ t).getLast? with
  | some entry => entry.2
  | none => 0

/-- The results of a submission in a dictionary after a change. -/
def applyIn (submissions : Dict String Scored) (change : Subchange) : Dict String Scored :=
  match submissions.get? change.submission with
  | none => submissions
  | some s => submissions.set change.submission (s.apply change)

/-- `submissions_at`. -/
def submissionsAt (sc : Score) (t : ℤ) : Dict String Scored :=
  let made : Dict String Scored := (sc.submissions.mapValues fun s =>
    Scored.unscored s.submission).filterValues fun s => s.submission.time ≤ t
  (sc.changes.takeWhile fun c => c.2.time ≤ t).foldl (fun subs c => applyIn subs c.2) made

end Score

end Ranking
end ContestManagement
