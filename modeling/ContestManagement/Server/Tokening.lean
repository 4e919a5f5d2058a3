import Mathlib.Data.List.Sort
import ContestManagement.Common.Datetime
import ContestManagement.Lib.Machine

/-!
# Tokens

`_tokens_available` replays the tokens played so far, with the tokens generated in between and
their cap, and says how many tokens are left at one level, the contest or a task.
`tokens_available` combines both levels, and `accept_token` plays a token when one is left and
the minimum intervals have passed.

Times are counted in microseconds since 1970.  An assertion that fails, or a time that is no
`datetime`, gives `none`.  The periods that have passed are counted in floating-point numbers, and so
are the tokens that are generated: `TokenArithmetic` is the arithmetic, `python` or `exact`.
-/

namespace ContestManagement
namespace Server

open Lib Common

inductive TokenMode
  | disabled
  | finite
  | infinite
  deriving DecidableEq

/-- The token parameters of a contest or of a task, with the constraints of their table. -/
structure TokenRules where
  mode : TokenMode
  genInitial : ℤ
  genNumber : ℤ
  genInterval : ℤ
  genMax : Option ℤ
  maxNumber : Option ℤ
  minInterval : ℤ
  genInitial_nonneg : 0 ≤ genInitial
  genNumber_nonneg : 0 ≤ genNumber
  genInterval_pos : 0 < genInterval
  genMax_pos : ∀ limit ∈ genMax, 0 < limit
  genInitial_le : ∀ limit ∈ genMax, genInitial ≤ limit
  maxNumber_pos : ∀ limit ∈ maxNumber, 0 < limit
  minInterval_nonneg : 0 ≤ minInterval

/-- The number of tokens, the time of the next one, and the time to wait for. -/
structure Availability where
  tokens : ℤ
  nextGenTime : Option ℤ
  expiration : Option ℤ
  deriving DecidableEq

/-- The arithmetic on times and on numbers of periods and tokens. -/
structure TokenArithmetic where
  /-- How many times a time contains another one. -/
  quotient : ℤ → ℤ → ℤ
  /-- What becomes of a number that is computed. -/
  round : ℤ → ℤ
  /-- Whether a time that is computed is one. -/
  isTime : ℤ → Bool

namespace TokenArithmetic

def exact : TokenArithmetic := ⟨fun time interval => time / interval, id, fun _ => true⟩

def python : TokenArithmetic where
  quotient time interval := ⌊Binary64.floorDiv (totalSeconds time) (totalSeconds interval)⌋
  round number := ⌊Binary64.nearest number⌋
  isTime time := IsDatetime time

@[simp] theorem exact_quotient (time interval : ℤ) :
    exact.quotient time interval = time / interval := rfl

@[simp] theorem exact_round (number : ℤ) : exact.round number = number := rfl

@[simp] theorem exact_isTime (time : ℤ) : exact.isTime time = true := rfl

end TokenArithmetic

/-! ## One level -/

namespace TokenRules

/-- The generation periods that have ended by a time. -/
def periods (rules : TokenRules) (arith : TokenArithmetic) (start time : ℤ) : ℤ :=
  arith.quotient (time - start) rules.genInterval

/-- `generate_tokens`. -/
def generateTokens (rules : TokenRules) (arith : TokenArithmetic) (start begin stop : ℤ) : ℤ :=
  arith.round (rules.genNumber *
    arith.round (rules.periods arith start stop - rules.periods arith start begin))

/-- `min(avail, gen_max)`, where there is a cap. -/
def capped (rules : TokenRules) (avail : ℤ) : ℤ :=
  match rules.genMax with
  | none => avail
  | some limit => min avail limit

/-- One turn of the simulation, from the tokens left and the time of the previous one. -/
def playNext (rules : TokenRules) (arith : TokenArithmetic) (start : ℤ) (state : ℤ × ℤ) (next : ℤ) :
    Option (ℤ × ℤ) :=
  if state.2 ≤ next then
    let avail := arith.round (state.1 + rules.generateTokens arith start state.2 next)
    some (arith.round (rules.capped avail - 1), next)
  else none

/-- The tokens left after the tokens of a history were played, and the time of the last one. -/
def simulate (rules : TokenRules) (arith : TokenArithmetic) (start : ℤ) (history : List ℤ) :
    Option (ℤ × ℤ) :=
  history.foldlM (rules.playNext arith start) (rules.genInitial, start)

/-- The time at which the next token is generated. -/
def nextGeneration (rules : TokenRules) (arith : TokenArithmetic) (start timestamp avail : ℤ) :
    Option ℤ :=
  if 0 < rules.genNumber ∧ ∀ limit ∈ rules.genMax, avail < limit then
    some (start + rules.genInterval * arith.round (rules.periods arith start timestamp + 1))
  else none

/-- The tokens left, when no more than the maximum may be played. -/
def limited (rules : TokenRules) (played avail : ℤ) (next : Option ℤ) : ℤ × Option ℤ :=
  match rules.maxNumber with
  | none => (avail, next)
  | some limit => if limit - played ≤ avail then (limit - played, none) else (avail, next)

/-- The time from which the minimum interval has passed. -/
def expires (rules : TokenRules) (start : ℤ) (history : List ℤ) : ℤ :=
  match history.getLast? with
  | some last => last + rules.minInterval
  | none => start

/-- What is reported when `avail` tokens are left. -/
def report (rules : TokenRules) (arith : TokenArithmetic) (start : ℤ) (history : List ℤ)
    (timestamp avail : ℤ) : Availability :=
  let left := rules.limited history.length avail (rules.nextGeneration arith start timestamp avail)
  let expiration := rules.expires start history
  { tokens := left.1
    nextGenTime := left.2
    expiration :=
      if expiration ≤ timestamp ∨ left.1 = 0 ∧ left.2 = none then none else some expiration }

/-- `_tokens_available`. -/
def tokensAvailable (rules : TokenRules) (arith : TokenArithmetic) (start : ℤ) (history : List ℤ)
    (timestamp : ℤ) : Option Availability :=
  match rules.mode with
  | .disabled => some ⟨0, none, none⟩
  | .infinite => some ⟨-1, none, none⟩
  | .finite => do
      let state ← rules.simulate arith start history
      if state.2 ≤ timestamp then
        let avail := rules.capped
          (arith.round (state.1 + rules.generateTokens arith start state.2 timestamp))
        let computed := (rules.nextGeneration arith start timestamp avail).toList ++
          [rules.expires start history]
        if computed.all arith.isTime then some (rules.report arith start history timestamp avail)
        else none
      else none

end TokenRules

/-! ## Both levels -/

/-- The later one of two expirations. -/
def laterExpiration : Option ℤ → Option ℤ → Option ℤ
  | none, task => task
  | contest, none => contest
  | some contest, some task => some (max task contest)

/-- The results of the contest and of the task, merged. -/
def merge (contest task : Availability) : Availability :=
  let expiration := laterExpiration contest.expiration task.expiration
  if contest.tokens = -1 ∧ task.tokens = -1 then ⟨-1, none, expiration⟩
  else
    -- An infinite number counts as one more than the other level has.
    let ofContest := if contest.tokens = -1 then task.tokens + 1 else contest.tokens
    let ofTask := if task.tokens = -1 then ofContest + 1 else task.tokens
    if ofContest < ofTask then ⟨ofContest, contest.nextGenTime, expiration⟩
    else if ofTask < ofContest then ⟨ofTask, task.nextGenTime, expiration⟩
    else
      match contest.nextGenTime, task.nextGenTime with
      | some next, some next' => ⟨ofTask, some (max next next'), expiration⟩
      | _, _ => ⟨ofTask, none, expiration⟩

/-- A played token. -/
structure Token where
  timestamp : ℤ
  submission : ℕ
  deriving DecidableEq

/-- A participation in a contest: its rules, the rules of its tasks, the task of each submission,
and the time at which the tokens start being generated. -/
structure TokenSetup where
  contest : TokenRules
  task : ℕ → TokenRules
  taskOf : ℕ → ℕ
  start : ℤ

namespace TokenSetup

variable (setup : TokenSetup)

/-- The tokens played up to a time, sorted by time. -/
def played (tokens : List Token) (timestamp : ℤ) : List Token :=
  (tokens.filter fun token => token.timestamp ≤ timestamp).insertionSort
    fun a b => a.timestamp ≤ b.timestamp

def contestHistory (tokens : List Token) (timestamp : ℤ) : List ℤ :=
  (played tokens timestamp).map Token.timestamp

def taskHistory (tokens : List Token) (task : ℕ) (timestamp : ℤ) : List ℤ :=
  ((played tokens timestamp).filter fun token => setup.taskOf token.submission = task).map
    Token.timestamp

def contestTokens (arith : TokenArithmetic) (tokens : List Token) (timestamp : ℤ) : Option Availability :=
  setup.contest.tokensAvailable arith setup.start (contestHistory tokens timestamp) timestamp

def taskTokens (arith : TokenArithmetic) (tokens : List Token) (task : ℕ) (timestamp : ℤ) :
    Option Availability :=
  (setup.task task).tokensAvailable arith setup.start (setup.taskHistory tokens task timestamp)
    timestamp

/-- `tokens_available`. -/
def tokensAvailable (arith : TokenArithmetic) (tokens : List Token) (task : ℕ) (timestamp : ℤ) :
    Option Availability := do
  let contest ← setup.contestTokens arith tokens timestamp
  let ofTask ← setup.taskTokens arith tokens task timestamp
  some (merge contest ofTask)

end TokenSetup

inductive TokenError
  | unacceptableToken (subject text : String)
  | tokenAlreadyPlayed (subject text : String)
  /-- An assertion that fails, or a time that is no `datetime`. -/
  | notComputed
  deriving DecidableEq

def concurrentRequestText : String :=
  "Another request from your account was being processed at the same " ++
    "moment, so this one was not accepted. Wait a few seconds and try again."

/-- `accept_token`; `locked` says whether the lock of the tokens was free. -/
def TokenSetup.acceptToken (setup : TokenSetup) (arith : TokenArithmetic) (tokens : List Token)
    (locked : Bool) (submission : ℕ) (timestamp : ℤ) : Except TokenError Token :=
  if locked = false then
    .error (.unacceptableToken "Token request discarded" concurrentRequestText)
  else
    match setup.tokensAvailable arith tokens (setup.taskOf submission) timestamp with
    | none => .error .notComputed
    | some available =>
        if available.tokens = 0 ∨ available.expiration.isSome then
          .error (.unacceptableToken "Token request discarded"
            "Your request has been discarded because you have no tokens available.")
        else if tokens.any fun token => token.submission = submission then
          .error (.tokenAlreadyPlayed "Token request discarded"
            "Your request has been discarded because you already used a token on that submission.")
        else .ok ⟨timestamp, submission⟩

/-! ## Runs -/

structure TokenState where
  tokens : List Token
  /-- The time of the last decision. -/
  clock : ℤ
  deriving DecidableEq

/-- A decision about a submission at a time. -/
structure TokenRequest where
  locked : Bool
  submission : ℕ
  timestamp : ℤ

/-- One decision; a token that is accepted is committed. -/
def TokenSetup.decide (setup : TokenSetup) (arith : TokenArithmetic) (s : TokenState)
    (request : TokenRequest) : Option TokenState :=
  if s.clock ≤ request.timestamp then
    match setup.acceptToken arith s.tokens request.locked request.submission request.timestamp with
    | .ok token => some ⟨s.tokens ++ [token], request.timestamp⟩
    | .error _ => some { s with clock := request.timestamp }
  else none

/-- Decisions at times that do not decrease, from the start on. -/
def TokenSetup.machine (setup : TokenSetup) (arith : TokenArithmetic) :
    Machine TokenState TokenRequest where
  init s := s.tokens = [] ∧ s.clock = setup.start
  step := setup.decide arith

end Server
end ContestManagement
