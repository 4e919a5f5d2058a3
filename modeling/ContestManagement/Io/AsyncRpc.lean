import ContestManagement.Lib.Machine
import ContestManagement.Lib.Dict
import ContestManagement.Lib.Python

/-!
# The client side of an RPC connection

`AsyncRemoteServiceClient` of `cms/io/async_rpc.py`.  A coroutine runs alone from one `await` to the
next: these are the steps.  The coroutines are the calls (`execute_rpc`), the loop that connects and
reads (`_run`, `run`), and one task for each line that was read (`_process_answer`).

A connection is named by its reader, which is a number: `process_data` compares readers to tell
whether a line still comes from the current connection.
-/

namespace ContestManagement
namespace Io
namespace Rpc

open Lib

/-- `MAX_MESSAGE_SIZE`. -/
def maxMessageSize : Nat := 1024 * 1024

/-- `MAX_ABANDONED`. -/
def maxAbandoned : Nat := 4096

/-- The future of a call. -/
inductive Future
  | pending
  | result (data : PyValue)
  /-- An `RPCError` is set. -/
  | exception (error : PyValue)
  | cancelled

/-- How a call ends. -/
inductive Outcome
  | value (data : PyValue)
  | rpcError (error : PyValue)
  /-- `CancelledError`. -/
  | cancelled

/-- Where a call is. -/
inductive CallPhase
  /-- `_write` waits for the lock. -/
  | locking
  /-- The request is written; the lock is held until it is drained. -/
  | draining
  /-- `await result`. -/
  | awaiting
  | ended (outcome : Outcome)

namespace CallPhase

def isLocking : CallPhase → Bool
  | locking => true
  | _ => false

def isDraining : CallPhase → Bool
  | draining => true
  | _ => false

def isAwaiting : CallPhase → Bool
  | awaiting => true
  | _ => false

def isEnded : CallPhase → Bool
  | ended _ => true
  | _ => false

end CallPhase

/-- A call of `execute_rpc`.  The last two fields are for the record: the connection on which it
was registered, and the number of the answer that settled it. -/
structure RpcCall where
  id : String
  method : String
  phase : CallPhase
  future : Future
  /-- The caller was cancelled: `CancelledError` is raised when the call runs next. -/
  cancelling : Bool
  madeOn : Option Nat
  answer : Option Nat

namespace RpcCall

/-- `result.set_exception`, unless the future is done. -/
def setException (c : RpcCall) (error : PyValue) : RpcCall :=
  match c.future with
  | .pending => { c with future := .exception error }
  | _ => c

/-- An answer settles the future, unless it is done. -/
def settle (c : RpcCall) (number : Nat) (future : Future) : RpcCall :=
  match c.future with
  | .pending => { c with future := future, answer := some number }
  | _ => c

/-- It waits for the write lock, and was not cancelled. -/
def isWaiting (c : RpcCall) : Bool := c.phase.isLocking && !c.cancelling

end RpcCall

/-- A task of `_process_answer`: the line, the reader that `run` was started with, and the reader
the line was read from. -/
structure Answer where
  data : List UInt8
  reader : Nat
  source : Nat

/-- An answer that was processed, with the ids of the calls that were pending then. -/
structure Processed where
  id : String
  data : PyValue
  error : PyValue
  pending : List String

/-- The task of `_run`. -/
inductive Loop
  | off
  /-- `_connect`, or the wait before it. -/
  | connecting
  /-- `run` waits for a line: its own `reader`, and the one that it reads from. -/
  | reading (reader source : Nat)

/-- How `drain` goes. -/
inductive Drain
  | done
  | waits
  /-- An `OSError`. -/
  | fails
  deriving DecidableEq

/-- How a read ends that gives no line. -/
inductive ReadEnd
  | closed
  | broken
  | tooLong
  deriving DecidableEq

structure Client where
  /-- The reader and the writer, while connected. -/
  connection : Option Nat
  nextReader : Nat
  pendingOutgoingRequests : Dict String String
  /-- The results are given by the calls that wait for them. -/
  pendingOutgoingRequestsResults : Dict String Nat
  abandoned : Dict String String
  loop : Loop
  /-- The lines that are not processed yet. -/
  answers : List Answer
  /-- The calls in the order in which they were made. -/
  calls : List RpcCall
  processed : List Processed

inductive RpcAction
  | connect
  | disconnect
  /-- `_connect` comes back. -/
  | tryConnection (ok : Bool)
  | readLine (data : List UInt8)
  | endRead (how : ReadEnd)
  /-- A line is processed. -/
  | process (index : Nat)
  /-- `execute_rpc` with its id, the method, and the length of the request if it can be encoded. -/
  | call (id method : String) (length : Option Nat) (drain : Drain)
  /-- A call gets the write lock. -/
  | acquire (index : Nat) (drain : Drain)
  | drained (index : Nat) (ok : Bool)
  /-- A call runs again: its future is done, or its caller was cancelled. -/
  | resume (index : Nat)
  | cancel (index : Nat)

namespace Client

variable (loads : List UInt8 → Option PyValue) (autoRetry : Bool)

def fresh : Client := ⟨none, 0, .empty, .empty, .empty, .off, [], [], []⟩

/-- Set the exception of every pending result. -/
def failResults (results : Dict String Nat) (error : PyValue) (calls : List RpcCall) :
    List RpcCall :=
  results.items.foldl (fun calls item => calls.modify item.2 (·.setException error)) calls

/-- `finalize`. -/
def finalize (s : Client) (reason : String) : Client :=
  { s with
    connection := none
    calls := failResults s.pendingOutgoingRequestsResults (.str reason) s.calls
    pendingOutgoingRequests := .empty
    pendingOutgoingRequestsResults := .empty }

/-- Remember a call the caller gave up on; the oldest one is forgotten. -/
def remember (abandoned : Dict String String) (id method : String) : Dict String String :=
  let abandoned := abandoned.set id method
  match abandoned.items with
  | oldest :: _ =>
      if abandoned.items.length > maxAbandoned then abandoned.erase oldest.1 else abandoned
  | [] => abandoned

/-- The end of `execute_rpc`, with its `finally` clause. -/
def finish (s : Client) (index : Nat) (outcome : Outcome) (sent : Bool) : Client :=
  match s.calls[index]? with
  | none => s
  | some call =>
      { s with
        pendingOutgoingRequests := s.pendingOutgoingRequests.erase call.id
        pendingOutgoingRequestsResults := s.pendingOutgoingRequestsResults.erase call.id
        abandoned :=
          if (s.pendingOutgoingRequests.get? call.id).isSome && sent then
            remember s.abandoned call.id call.method
          else s.abandoned
        calls := s.calls.set index { call with phase := .ended outcome } }

/-- A call comes to a phase. -/
def setPhase (s : Client) (index : Nat) (phase : CallPhase) : Client :=
  { s with calls := s.calls.modify index fun call => { call with phase } }

/-- `_write` fails while it has the lock. -/
def failWrite (s : Client) (index : Nat) : Client :=
  (s.finalize "Write failed.").finish index (.rpcError (.str "Write failed.")) false

/-- `return await result`, after the request was sent. -/
def awaitResult (s : Client) (index : Nat) : Client :=
  match s.calls[index]? with
  | none => s
  | some call =>
      match call.future with
      | .pending => s.setPhase index .awaiting
      | .result data => s.finish index (.value data) true
      | .exception error => s.finish index (.rpcError error) true
      | .cancelled => s.finish index .cancelled true

/-- `_write`, with the lock. -/
def write (s : Client) (index : Nat) (drain : Drain) : Client :=
  match s.connection with
  | none => s.failWrite index
  | some _ =>
      match drain with
      | .done => s.awaitResult index
      | .waits => s.setPhase index .draining
      | .fails => s.failWrite index

/-- The write lock is held. -/
def locked (s : Client) : Bool := s.calls.any fun call => call.phase.isDraining

/-- The call, with its request and its result in the dictionaries. -/
def register (s : Client) (id method : String) : Client :=
  { s with
    pendingOutgoingRequests := s.pendingOutgoingRequests.set id method
    pendingOutgoingRequestsResults := s.pendingOutgoingRequestsResults.set id s.calls.length
    calls := s.calls ++ [⟨id, method, .locking, .pending, false, s.connection, none⟩] }

/-- `execute_rpc`, up to its first `await`. -/
def executeRpc (s : Client) (id method : String) (length : Option Nat) (drain : Drain) : Client :=
  match length with
  | none =>
      { s with
        calls := s.calls ++ [⟨id, method, .ended (.rpcError (.str "JSON encoding failed.")),
          .pending, false, s.connection, none⟩] }
  | some length =>
      if s.connection.isNone || length + 2 > maxMessageSize then
        (s.register id method).finish s.calls.length (.rpcError (.str "Write failed.")) false
      -- A lock that others wait for is not taken before them.
      else if s.locked || s.calls.any RpcCall.isWaiting then s.register id method
      else (s.register id method).write s.calls.length drain

/-- `_drop_connection`. -/
def dropConnection (s : Client) (reason : String) : Client :=
  match s.connection with
  | none => s
  | some _ => s.finalize reason

/-- What an answer sets. -/
def answerFuture (error data : PyValue) : Future :=
  match error with
  | .none => .result data
  | _ => .exception error

/-- The record of an answer. -/
def note (s : Client) (id : String) (data error : PyValue) : Client :=
  { s with processed := s.processed ++ [⟨id, data, error, s.pendingOutgoingRequests.keys⟩] }

/-- An answer settles the call that has its id. -/
def settled (s : Client) (id : String) (data error : PyValue) (index : Nat) : Client :=
  { s.note id data error with
    pendingOutgoingRequests := s.pendingOutgoingRequests.erase id
    pendingOutgoingRequestsResults := s.pendingOutgoingRequestsResults.erase id
    calls := s.calls.modify index fun call =>
      call.settle s.processed.length (answerFuture error data) }

/-- `process_incoming_response`. -/
def processIncomingResponse (s : Client) (response : PyValue) : Client :=
  match response.get? "__id", response.get? "__data", response.get? "__error" with
  | some (.str id), some data, some error =>
      match s.pendingOutgoingRequests.get? id with
      | none => { s.note id data error with abandoned := s.abandoned.erase id }
      | some _ =>
          match s.pendingOutgoingRequestsResults.get? id with
          | none =>
              -- `_process_answer` drops the connection for the `KeyError`.
              dropConnection { s.note id data error with
                pendingOutgoingRequests := s.pendingOutgoingRequests.erase id }
                "Bad response received"
          | some index => s.settled id data error index
  | _, _, _ => s.dropConnection "Bad response received"

/-- `process_data`. -/
def processData (s : Client) (answer : Answer) : Client :=
  if s.connection ≠ some answer.reader then s
  else
    match loads answer.data with
    | none => s.dropConnection "Bad response received"
    | some message => s.processIncomingResponse message

/-- `run` is over. -/
def endRun (s : Client) : Client :=
  { s with loop := if autoRetry then .connecting else .off }

/-- `run` goes on to the next `_read`. -/
def readNext (s : Client) (reader : Nat) : Client :=
  match s.connection with
  | none => s.endRun autoRetry
  | some source => { s with loop := .reading reader source }

def step (s : Client) : RpcAction → Option Client
  | .connect =>
      match s.loop with
      | .off => some { s with loop := .connecting }
      | _ => none
  | .disconnect =>
      match s.connection with
      | none => none
      | some _ => some { s.finalize "Disconnection requested." with loop := .off }
  | .tryConnection ok =>
      match s.loop with
      | .connecting =>
          if ok then
            match s.connection with
            | none => some { s with
                connection := some s.nextReader
                nextReader := s.nextReader + 1
                loop := .reading s.nextReader s.nextReader }
            -- "Already connected."
            | some _ => some { s with loop := .off }
          else some (s.endRun autoRetry)
      | _ => none
  | .readLine data =>
      match s.loop with
      | .reading reader source =>
          some (readNext autoRetry { s with answers := s.answers ++ [⟨data, reader, source⟩] } reader)
      | _ => none
  | .endRead how =>
      match s.loop with
      | .reading _ _ =>
          let ended := match how, s.connection with
            | .broken, some _ => s.finalize "Read failed."
            | .tooLong, _ => (s.finalize "Client misbehaving.").finalize "Connection closed."
            | _, _ => s.finalize "Connection closed."
          some (ended.endRun autoRetry)
      | _ => none
  | .process index =>
      match s.answers[index]? with
      | none => none
      | some answer =>
          some (processData loads { s with answers := s.answers.eraseIdx index } answer)
  | .call id method length drain =>
      -- `uuid4` never gives an id again.
      if s.calls.any fun call => call.id = id then none
      else some (s.executeRpc id method length drain)
  | .acquire index drain =>
      match s.calls[index]? with
      | none => none
      | some call =>
          -- The lock goes to the calls in the order in which they asked for it.
          if call.isWaiting && !s.locked && !(s.calls.take index).any RpcCall.isWaiting then
            some (s.write index drain)
          else none
  | .drained index ok =>
      match s.calls[index]? with
      | none => none
      | some call =>
          if call.phase.isDraining && !call.cancelling then
            some (if ok then s.awaitResult index else s.failWrite index)
          else none
  | .resume index =>
      match s.calls[index]? with
      | none => none
      | some call =>
          if call.phase.isEnded then none
          else if call.cancelling then some (s.finish index .cancelled call.phase.isAwaiting)
          else
            match call.phase, call.future with
            | .awaiting, .pending => none
            | .awaiting, _ => some (s.awaitResult index)
            | _, _ => none
  | .cancel index =>
      match s.calls[index]? with
      | none => none
      | some call =>
          if call.phase.isEnded then none
          else
            -- The future that a task awaits is cancelled with the task.
            let future := match call.phase, call.future with
              | .awaiting, .pending => .cancelled
              | _, future => future
            some { s with calls := s.calls.set index { call with cancelling := true, future } }

end Client

/-- The runs of a client.  `loads` decodes a line, as `json.loads` does after `decode`. -/
def rpcMachine (loads : List UInt8 → Option PyValue) (autoRetry : Bool) :
    Machine Client RpcAction where
  init := fun s => s = .fresh
  step := Client.step loads autoRetry

end Rpc
end Io
end ContestManagement
