import Mathlib.Logic.Function.Basic
import ContestManagement.Lib.Machine
import ContestManagement.Server.Tokening

/-!
# The limits of submissions and user tests

`accept_submission` and `accept_user_test` compare the past requests of the contestant with the
limits of the contest and of the task.  The checks are statements of their own and the new row is
seen only after the commit, so they are made under a lock of the participation, which is held
until the transaction ends.  A request that no limit concerns takes no lock.

The requests of one participation run in any number of processes.  A step is one statement, a
commit or a rollback; what a request does besides is in the rollback, which may come at any time.
-/

namespace ContestManagement
namespace Server

open Lib

/-- What a request hands in. -/
inductive RequestKind
  | submission
  | userTest
  deriving DecidableEq

/-- The limits that a contest or a task has for one kind of requests. -/
structure Limits where
  maxNumber : Option ℕ
  minInterval : Option ℤ
  minInterval_pos : ∀ interval ∈ minInterval, 0 < interval

/-- The times of a group, with the constraints of their table. -/
structure Group where
  start : ℤ
  stop : ℤ
  analysisEnabled : Bool
  analysisStart : ℤ
  analysisStop : ℤ
  perUserTime : Option ℤ
  start_le_stop : start ≤ stop
  stop_le_analysisStart : stop ≤ analysisStart
  analysisStart_le_analysisStop : analysisStart ≤ analysisStop
  perUserTime_nonneg : ∀ time ∈ perUserTime, 0 ≤ time

/-- A group without a time for each user. -/
theorem Group.noTime_nonneg : ∀ time ∈ (none : Option ℤ), 0 ≤ time := by simp

/-- A participation with its group; the grace period is
`min_submission_interval_grace_period` of its contest. -/
structure GroupParticipation where
  group : Group
  unrestricted : Bool
  startingTime : Option ℤ
  delayTime : ℤ
  extraTime : ℤ
  gracePeriod : Option ℤ
  delayTime_nonneg : 0 ≤ delayTime
  extraTime_nonneg : 0 ≤ extraTime

/-- The starting time that is added is `None`. -/
inductive MissingTime
  | typeError
  deriving DecidableEq

/-- A participation, and the limits of its contest and of the tasks. -/
structure LimitSetup where
  participation : GroupParticipation
  /-- Requests are accepted in the phase `0`, when it is known when the user started. -/
  started : participation.group.perUserTime.isSome → participation.startingTime.isSome
  contest : RequestKind → Limits
  task : RequestKind → ℕ → Limits

structure Request where
  kind : RequestKind
  task : ℕ
  timestamp : ℤ
  overrideMaxNumber : Bool
  overrideMinInterval : Bool
  deriving DecidableEq

/-- A committed submission or user test. -/
structure Row where
  task : ℕ
  timestamp : ℤ
  deriving DecidableEq

/-- The subject, the text and the parameter of an `UnacceptableSubmission` or an
`UnacceptableUserTest`. -/
structure Refusal where
  subject : String
  text : String
  param : Option ℤ
  deriving DecidableEq

namespace GroupParticipation

variable (p : GroupParticipation) (timestamp : ℤ)

/-- The end of the time of a participation, before the delay and the extra time. -/
def endTime : Except MissingTime ℤ :=
  match p.group.perUserTime with
  | none => .ok p.group.stop
  | some perUserTime =>
      match p.startingTime with
      | none => .error .typeError
      | some startingTime => .ok (startingTime + perUserTime)

/-- `is_last_minutes`. -/
def isLastMinutes : Except MissingTime Bool :=
  match p.unrestricted, p.gracePeriod with
  | true, _ => .ok false
  | false, none => .ok false
  | false, some grace => do
      let endTime ← p.endTime
      let timeLeft := endTime + (p.delayTime + p.extraTime) - timestamp
      return timeLeft ≤ grace

end GroupParticipation

/-! ## The statements of a request -/

/-- A statement; the checks are about all tasks of the contest or about one task. -/
inductive Statement
  | tryLock
  | maxNumber (task : Option ℕ) (limit : ℕ)
  | minInterval (task : Option ℕ) (interval : ℤ)
  deriving DecidableEq

namespace LimitSetup

variable (setup : LimitSetup)

/-- Whether the limits on the number are checked. -/
def checksNumber (r : Request) : Bool :=
  match r.kind with
  | .submission => !r.overrideMaxNumber
  | .userTest => true

/-- Whether a time is in the last minutes. -/
def inLastMinutes (timestamp : ℤ) : Bool :=
  setup.participation.isLastMinutes timestamp matches .ok true

/-- Whether the limits on the interval are checked. -/
def checksInterval (r : Request) : Bool :=
  match r.kind with
  | .submission => !r.overrideMinInterval && !setup.inLastMinutes r.timestamp
  | .userTest => true

/-- The checks on the number. -/
def numberChecks (r : Request) : List Statement :=
  if checksNumber r then
    ((setup.contest r.kind).maxNumber.toList.map (.maxNumber none)) ++
      ((setup.task r.kind r.task).maxNumber.toList.map (.maxNumber (some r.task)))
  else []

/-- The checks on the interval. -/
def intervalChecks (r : Request) : List Statement :=
  if setup.checksInterval r then
    ((setup.contest r.kind).minInterval.toList.map (.minInterval none)) ++
      ((setup.task r.kind r.task).minInterval.toList.map (.minInterval (some r.task)))
  else []

/-- The statements of a request: the lock comes first, if there is a limit to check. -/
def statements (r : Request) : List Statement :=
  if setup.participation.unrestricted then []
  else
    match setup.numberChecks r ++ setup.intervalChecks r with
    | [] => []
    | check :: rest => .tryLock :: check :: rest

end LimitSetup

/-- The rows that a check is about. -/
def rowsOn (task : Option ℕ) (rows : List Row) : List Row :=
  match task with
  | none => rows
  | some task => rows.filter fun row => row.task = task

/-- `check_max_number`, when there is a limit. -/
def checkMaxNumber (rows : List Row) (task : Option ℕ) (limit : ℕ) : Bool :=
  (rowsOn task rows).length < limit

/-- The later one of two rows. -/
def laterRow (latest : Option Row) (row : Row) : Option Row :=
  match latest with
  | none => some row
  | some other => if other.timestamp < row.timestamp then some row else some other

/-- `get_latest_submission`. -/
def getLatestSubmission (rows : List Row) (task : Option ℕ) : Option Row :=
  (rowsOn task rows).foldl laterRow none

/-- `check_min_interval`, when there is a limit. -/
def checkMinInterval (rows : List Row) (task : Option ℕ) (interval timestamp : ℤ) : Bool :=
  match getLatestSubmission rows task with
  | none => true
  | some row => interval ≤ timestamp - row.timestamp

/-- What is said when a statement refuses a request; intervals are shown in seconds. -/
def Statement.refusal (kind : RequestKind) : Statement → Refusal
  | .tryLock =>
      ⟨match kind with
        | .submission => "Submission not accepted"
        | .userTest => "Test not accepted", concurrentRequestText, none⟩
  | .maxNumber task limit =>
      match kind, task with
      | .submission, none => ⟨"Too many submissions!",
          "You have reached the maximum limit of at most %d submissions among all tasks.", some limit⟩
      | .submission, some _ => ⟨"Too many submissions!",
          "You have reached the maximum limit of at most %d submissions on this task.", some limit⟩
      | .userTest, none => ⟨"Too many tests!",
          "You have reached the maximum limit of at most %d tests among all tasks.", some limit⟩
      | .userTest, some _ => ⟨"Too many tests!",
          "You have reached the maximum limit of at most %d tests on this task.", some limit⟩
  | .minInterval task interval =>
      match kind, task with
      | .submission, none => ⟨"Submissions too frequent!",
          "Among all tasks, you can submit again after %d seconds from last submission.",
          some (interval / 1000000)⟩
      | .submission, some _ => ⟨"Submissions too frequent!",
          "For this task, you can submit again after %d seconds from last submission.",
          some (interval / 1000000)⟩
      | .userTest, none => ⟨"Tests too frequent!",
          "Among all tasks, you can test again after %d seconds from last test.",
          some (interval / 1000000)⟩
      | .userTest, some _ => ⟨"Tests too frequent!",
          "For this task, you can test again after %d seconds from last test.",
          some (interval / 1000000)⟩

/-! ## Runs -/

/-- Where a request is. -/
inductive Phase
  | waiting
  /-- Some of its statements are left; without any it is going to commit. -/
  | running (request : Request) (left : List Statement)
  /-- It was refused, and its transaction is still open. -/
  | refused (request : Request) (refusal : Refusal)
  | ended
  deriving DecidableEq

structure LimitState where
  /-- The committed rows. -/
  rows : RequestKind → List Row
  /-- The request whose transaction holds the lock. -/
  holder : RequestKind → Option ℕ
  phase : ℕ → Phase

inductive LimitLabel
  | start (id : ℕ) (request : Request)
  | execute (id : ℕ)
  | commit (id : ℕ)
  | rollback (id : ℕ)

namespace LimitState

def setPhase (s : LimitState) (id : ℕ) (phase : Phase) : LimitState :=
  { s with phase := Function.update s.phase id phase }

/-- The end of a transaction frees its lock. -/
def endTransaction (s : LimitState) (id : ℕ) (kind : RequestKind) : LimitState :=
  { s with
    holder := if s.holder kind = some id then Function.update s.holder kind none else s.holder
    phase := Function.update s.phase id .ended }

/-- One statement of a request. -/
def execute (s : LimitState) (id : ℕ) (r : Request) (statement : Statement)
    (rest : List Statement) : LimitState :=
  let go := s.setPhase id (.running r rest)
  let refuse := s.setPhase id (.refused r (statement.refusal r.kind))
  match statement with
  | .tryLock =>
      if s.holder r.kind = none ∨ s.holder r.kind = some id then
        { go with holder := Function.update s.holder r.kind (some id) }
      else refuse
  | .maxNumber task limit => if checkMaxNumber (s.rows r.kind) task limit then go else refuse
  | .minInterval task interval =>
      if checkMinInterval (s.rows r.kind) task interval r.timestamp then go else refuse

/-- The row of a request is committed. -/
def addRow (s : LimitState) (r : Request) : LimitState :=
  { s with
    rows := Function.update s.rows r.kind (s.rows r.kind ++ [⟨r.task, r.timestamp⟩]) }

def step (setup : LimitSetup) (s : LimitState) : LimitLabel → Option LimitState
  | .start id r =>
      match s.phase id with
      | .waiting => some (s.setPhase id (.running r (setup.statements r)))
      | _ => none
  | .execute id =>
      match s.phase id with
      | .running r (statement :: rest) => some (s.execute id r statement rest)
      | _ => none
  | .commit id =>
      match s.phase id with
      | .running r [] => some ((s.addRow r).endTransaction id r.kind)
      | _ => none
  | .rollback id =>
      match s.phase id with
      | .running r _ | .refused r _ => some (s.endTransaction id r.kind)
      | _ => none

end LimitState

def LimitSetup.machine (setup : LimitSetup) : Machine LimitState LimitLabel where
  init s := (∀ kind, s.rows kind = []) ∧ (∀ kind, s.holder kind = none) ∧
    ∀ id, s.phase id = .waiting
  step := LimitState.step setup

/-- No request overrides a check. -/
def NoOverride (_ : LimitState) : LimitLabel → Prop
  | .start _ r => r.overrideMaxNumber = false ∧ r.overrideMinInterval = false
  | _ => True

instance (s : LimitState) (label : LimitLabel) : Decidable (NoOverride s label) :=
  match label with
  | .start _ r =>
      inferInstanceAs (Decidable (r.overrideMaxNumber = false ∧ r.overrideMinInterval = false))
  | .execute _ | .commit _ | .rollback _ => inferInstanceAs (Decidable True)

end Server
end ContestManagement
