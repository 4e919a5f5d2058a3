import Mathlib.Data.Finset.Basic
import Mathlib.Data.Rat.Defs
import ContestManagement.Lib.Dict
import ContestManagement.Lib.Journal
import ContestManagement.Lib.Machine

/-!
# A regenerate among the threads of ProxyService

The threads of `ProxyService` that send scores and tokens, the sweeps, and one regenerate of a
ranking group, step by step.  Each step is one that the other threads can see or come between:
a read of the database, a read of the regenerate record, an addition to a set, a copy of a set,
a callback handed to the event loop.

The submissions are the official ones of the group whose participation is not hidden, in
contests whose data can be built.  A commit of a score or a token is followed by its
notification: the service that commits calls `submission_scored` or `submission_tokened` after
it.  There can be more notifications, also of a submission that is not scored.

`scores_sent_to_rankings` and `tokens_sent_to_rankings` are one set of keys here, and so are
the two sets of the record; where the code treats the two sets one after the other, so does the
model.  The operations are those for the group, in the order in which the event loop gets them.
The data of the contests and the settings of the group are one operation.
-/

namespace ContestManagement
namespace Service
namespace Regenerate

open Lib

/-- What is sent about a submission. -/
inductive Part
  | score
  | token
  deriving DecidableEq

/-- The score or the token of a submission. -/
structure Key where
  part : Part
  submission : ℕ
  deriving DecidableEq

/-- The operations for the group. -/
inductive Item
  | reset
  | contestData
  | submission (id : ℕ)
  /-- A subchange, without a score if the submission is not scored. -/
  | subchange (key : Key) (value : Option ℚ)
  deriving DecidableEq

def Item.isReset : Item → Bool
  | reset => true
  | _ => false

/-! ## The threads -/

/-- Where a thread stands with a submission that it has read. -/
inductive Stage
  /-- It has what it read. -/
  | loaded
  /-- It is going to send it, and reads the regenerate record next. -/
  | marking
  /-- It has read the record, which was there or not. -/
  | noting (record : Bool)
  /-- It has noted the submission in the record. -/
  | adding
  /-- It has added the submission to the set of what was sent. -/
  | sending
  /-- It has handed over the submission, and its subchange comes next. -/
  | sendingChange
  deriving DecidableEq

inductive Phase
  | next
  | busy (stage : Stage) (value : Option ℚ)
  deriving DecidableEq

/-- A thread with what it still has to look at.  A sweep leaves out what was sent. -/
structure Thread where
  onlyMissing : Bool
  jobs : List Key
  phase : Phase
  deriving DecidableEq

/-! ## The regenerate -/

/-- Where the regenerate stands. -/
inductive Regen
  | idle
  /-- The scores sent so far are copied. -/
  | saving (before : Finset Key)
  | saved (before : Finset Key)
  /-- The record is set. -/
  | querying (before : Finset Key)
  /-- It goes through the submissions; `current` is the one it has read, and whether it is
  marked as sent. -/
  | building (before : Finset Key) (jobs : List Key) (current : Option (Key × ℚ × Bool))
      (operations : List Item)
  /-- All is handed over, and what was noted of a part is copied next. -/
  | taking (part : Part) (taken : Finset Key)
  /-- What was noted of the part is copied, and taken out of the set next. -/
  | removing (part : Part) (taken : Finset Key)
  /-- It failed, and what was added to a set since is copied next. -/
  | forgetting (part : Part) (before : Finset Key)
  | dropping (part : Part) (before since : Finset Key)
  /-- The record is going to be cleared; `taken` is there if it did not fail. -/
  | closing (taken : Option (Finset Key))
  | finished (taken : Option (Finset Key))
  deriving DecidableEq

structure Proxy where
  submissions : List ℕ
  /-- The submissions that have a result for the active dataset, scored or not. -/
  results : List ℕ
  committed : Dict Key ℚ
  sent : Finset Key
  record : Bool
  noted : Finset Key
  queue : List Item
  threads : List Thread
  regen : Regen

/-- The keys of a part. -/
def ofPart (part : Part) (keys : Finset Key) : Finset Key :=
  keys.filter fun key => key.part = part

/-- The scores and tokens of some submissions, in the order in which they are looked at. -/
def keysOf (submissions : List ℕ) : List Key :=
  submissions.flatMap fun id => [⟨.score, id⟩, ⟨.token, id⟩]

/-- What is left of a walk over all the submissions once one without a result is left out, its
token too. -/
def skipSubmission (id : ℕ) (jobs : List Key) : List Key :=
  jobs.dropWhile fun key => key.submission = id

/-- A walk over all the submissions leaves out one that has no result. -/
def Proxy.skips (s : Proxy) (key : Key) : Bool :=
  key.part = .score && key.submission ∉ s.results

namespace Thread

/-- On to what comes next. -/
def advance (t : Thread) : Thread :=
  { t with jobs := t.jobs.tail, phase := .next }

/-- The next step of a thread. -/
def step (s : Proxy) (t : Thread) : Option (Thread × Proxy) :=
  match t.jobs, t.phase with
  | [], _ => none
  | key :: _, .next =>
      if t.onlyMissing && s.skips key then
        some ({ t with jobs := skipSubmission key.submission t.jobs }, s)
      else
        match s.committed.get? key with
        | some v => some ({ t with phase := .busy .loaded (some v) }, s)
        | none =>
            -- Only the notification of a score goes on without one.
            if t.onlyMissing || key.part = .token then some (t.advance, s)
            else some ({ t with phase := .busy .loaded none }, s)
  | key :: _, .busy .loaded v =>
      if t.onlyMissing && key ∈ s.sent then some (t.advance, s)
      else some ({ t with phase := .busy .marking v }, s)
  | _ :: _, .busy .marking v => some ({ t with phase := .busy (.noting s.record) v }, s)
  | key :: _, .busy (.noting record) v =>
      some ({ t with phase := .busy .adding v },
        if record then { s with noted := insert key s.noted } else s)
  | key :: _, .busy .adding v =>
      some ({ t with phase := .busy .sending v }, { s with sent := insert key s.sent })
  | key :: _, .busy .sending v =>
      some ({ t with phase := .busy .sendingChange v },
        { s with queue := s.queue ++ [.submission key.submission] })
  | key :: _, .busy .sendingChange v =>
      some (t.advance, { s with queue := s.queue ++ [.subchange key v] })

end Thread

namespace Proxy

/-- The next step of the regenerate. -/
def regenStep (s : Proxy) : Option Proxy :=
  match s.regen with
  | .idle => some { s with regen := .saving (ofPart .score s.sent) }
  | .saving before => some { s with regen := .saved (before ∪ ofPart .token s.sent) }
  | .saved before => some { s with record := true, noted := ∅, regen := .querying before }
  | .querying before =>
      some { s with regen := .building before (keysOf s.submissions) none [.contestData] }
  | .building before (key :: jobs) none operations =>
      if s.skips key then
        let jobs := skipSubmission key.submission (key :: jobs)
        some { s with regen := .building before jobs none operations }
      else
        match s.committed.get? key with
        | none => some { s with regen := .building before jobs none operations }
        | some v => some { s with regen := .building before jobs (some (key, v, false)) operations }
  | .building before jobs (some (key, v, false)) operations =>
      some { s with
        sent := insert key s.sent
        regen := .building before jobs (some (key, v, true)) operations }
  | .building before jobs (some (key, v, true)) operations =>
      let new := [Item.submission key.submission, Item.subchange key (some v)]
      some { s with regen := .building before jobs none (operations ++ new) }
  | .building _ [] none operations =>
      some { s with queue := s.queue ++ .reset :: operations, regen := .taking .score ∅ }
  | .taking part taken =>
      some { s with regen := .removing part (taken ∪ ofPart part s.noted) }
  | .removing part taken =>
      some { s with
        sent := s.sent \ ofPart part taken
        regen := match part with
          | .score => .taking .token taken
          | .token => .closing (some taken) }
  | .forgetting part before =>
      some { s with regen := .dropping part before (ofPart part s.sent \ before) }
  | .dropping part before since =>
      some { s with
        sent := s.sent \ since
        regen := match part with
          | .score => .forgetting .token before
          | .token => .closing none }
  | .closing taken => some { s with record := false, regen := .finished taken }
  | .finished _ => none

/-- An error while the data is read, or before it is handed over. -/
def fail (s : Proxy) : Option Proxy :=
  match s.regen with
  | .querying before => some { s with regen := .forgetting .score before }
  | .building before _ _ _ => some { s with regen := .forgetting .score before }
  | _ => none

/-- The thread of a notification. -/
def notification (key : Key) : Thread := ⟨false, [key], .next⟩

end Proxy

inductive Label
  | submit (id : ℕ)
  | newResult (id : ℕ)
  | commit (key : Key) (value : ℚ)
  | notify (key : Key)
  | sweep
  | work (thread : Nat)
  | regenerate
  | fail

namespace Proxy

def step (s : Proxy) : Label → Option Proxy
  | .submit id => some { s with submissions := s.submissions ++ [id] }
  | .newResult id => some { s with results := s.results ++ [id] }
  | .commit key value =>
      -- A score is that of a result, and a token has no value but that it is there.
      if key.submission ∈ s.submissions ∧ (key.part = .score → key.submission ∈ s.results) ∧
          (key.part = .token → value = 1) then
        some { s with
          committed := s.committed.set key value
          threads := s.threads ++ [notification key] }
      else none
  | .notify key => some { s with threads := s.threads ++ [notification key] }
  | .sweep => some { s with threads := s.threads ++ [⟨true, keysOf s.submissions, .next⟩] }
  | .work i =>
      match s.threads[i]? with
      | none => none
      | some t =>
          match t.step s with
          | none => none
          | some (t', s') => some { s' with threads := s.threads.set i t' }
  | .regenerate => s.regenStep
  | .fail => s.fail

/-- An operation with the score or token is queued after the last reset. -/
def Carried (s : Proxy) (key : Key) (value : ℚ) : Prop :=
  Item.subchange key (some value) ∈ sinceLast Item.isReset s.queue

/-- What is committed is either missing from the sets of what was sent, or queued after the
last reset. -/
def LosesNothing (s : Proxy) : Prop :=
  ∀ key value, s.committed.get? key = some value → key ∉ s.sent ∨ s.Carried key value

/-- All the threads are done. -/
def AllDone (s : Proxy) : Prop :=
  (∀ t ∈ s.threads, t.jobs = []) ∧ (s.regen = .idle ∨ ∃ taken, s.regen = .finished taken)

end Proxy

/-- The service between two requests: no thread runs, and nothing is lost. -/
def machine : Machine Proxy Label where
  init s := s.threads = [] ∧ s.regen = .idle ∧ s.record = false ∧
    (∀ key value, s.committed.get? key = some value → key.submission ∈ s.submissions ∧
      (key.part = .score → key.submission ∈ s.results)) ∧
    s.LosesNothing
  step := Proxy.step

end Regenerate
end Service
end ContestManagement
