import ContestManagement.Io.AsyncRpc
import ContestManagement.Lib.Slots

/-!
# The server side of an RPC connection

`AsyncRemoteServiceServer` of `cms/io/async_rpc.py`: `run` reads the lines, and each line has a task
that processes the request and writes the response.  A method may wait; the end of the connection
cancels the tasks, and a method that is cancelled may go on all the same.

What the peer sends is arbitrary.
-/

namespace ContestManagement
namespace Io
namespace Rpc

open Lib

/-- What the service has under a name. -/
inductive Attribute
  | missing
  | notCallable
  | callable
  deriving DecidableEq

/-- How a method ends. -/
inductive MethodResult
  | value (data : PyValue)
  /-- A value that has no JSON form. -/
  | unencodable
  /-- An exception, with its text in the response. -/
  | raises (message : String)

/-- A method that was called. -/
structure Invocation where
  id : PyValue
  method : String
  data : PyValue

structure Response where
  id : PyValue
  data : PyValue
  error : PyValue

def Response.toValue (r : Response) : PyValue :=
  .dict [("__id", r.id), ("__data", r.data), ("__error", r.error)]

/-- Where the task of a request is. -/
inductive RequestPhase
  | created
  /-- The method waits for something. -/
  | running (id : PyValue)
  /-- `_write` waits for the lock. -/
  | locking (data : List UInt8)
  | draining
  | finished

namespace RequestPhase

def isLocking : RequestPhase → Bool
  | locking _ => true
  | _ => false

def isDraining : RequestPhase → Bool
  | draining => true
  | _ => false

end RequestPhase

/-- A task of `process_data`.  The last three fields are for the record. -/
structure RequestTask where
  data : List UInt8
  phase : RequestPhase
  /-- `CancelledError` is raised when the task runs next. -/
  cancelling : Bool
  invocation : Option Invocation
  result : Option MethodResult
  response : Option Response

namespace RequestTask

def fresh (data : List UInt8) : RequestTask := ⟨data, .created, false, none, none, none⟩

def isWaiting (task : RequestTask) : Bool := task.phase.isLocking && !task.cancelling

end RequestTask

structure Server where
  connected : Bool
  /-- `run` waits for a line. -/
  reading : Bool
  tasks : List RequestTask
  /-- The messages that were written, each with the number of its task. -/
  written : List (Nat × List UInt8)

inductive ServerAction
  | readLine (data : List UInt8)
  | endRead (how : ReadEnd)
  /-- A task begins.  The method, if it is called, ends at once or waits. -/
  | begin (index : Nat) (result : Option MethodResult) (drain : Drain)
  /-- A method that has waited ends. -/
  | finish (index : Nat) (result : MethodResult) (drain : Drain)
  | acquire (index : Nat) (drain : Drain)
  | drained (index : Nat) (ok : Bool)
  /-- `CancelledError` ends a task. -/
  | cancelled (index : Nat)

namespace Server

variable (loads : List UInt8 → Option PyValue) (tooDeep : List UInt8 → Bool)
  (dumps : PyValue → Option (List UInt8)) (service : String → Attribute)

/-- `initialize_streams`. -/
def fresh : Server := ⟨true, true, [], []⟩

/-- `finalize`, which cancels all the tasks, also when it is called again. -/
def finalize (s : Server) : Server :=
  { s with connected := false, tasks := s.tasks.map fun task => { task with cancelling := true } }

def disconnect (s : Server) : Server := if s.connected then s.finalize else s

/-- A task changes. -/
def note (s : Server) (index : Nat) (change : RequestTask → RequestTask) : Server :=
  { s with tasks := s.tasks.modify index change }

def setPhase (s : Server) (index : Nat) (phase : RequestPhase) : Server :=
  s.note index fun task => { task with phase }

/-- The write lock is held. -/
def locked (s : Server) : Bool := s.tasks.any fun task => task.phase.isDraining

/-- `_write`, with the lock. -/
def write (s : Server) (index : Nat) (data : List UInt8) (drain : Drain) : Server :=
  if s.connected then
    let s := { s.setPhase index .draining with written := s.written ++ [(index, data)] }
    match drain with
    | .done => s.setPhase index .finished
    | .waits => s
    | .fails => s.finalize.setPhase index .finished
  else s.finalize.setPhase index .finished

/-- The end of `process_incoming_request`: a response that cannot be encoded or is too long is not
sent, and no other in its place. -/
def respond (s : Server) (index : Nat) (response : Response) (drain : Drain) : Server :=
  let s := s.note index fun task => { task with phase := .finished, response := some response }
  match dumps response.toValue with
  | none => s
  | some data =>
      if !s.connected || data.length + 2 > maxMessageSize then s
      else if s.locked || s.tasks.any RequestTask.isWaiting then s.setPhase index (.locking data)
      else s.write index data drain

/-- The method has ended. -/
def settle (s : Server) (index : Nat) (id : PyValue) (result : MethodResult) (drain : Drain) :
    Server :=
  let s := s.note index fun task => { task with result := some result }
  match result with
  | .value data => s.respond dumps index ⟨id, data, .none⟩ drain
  | .unencodable => s.setPhase index .finished
  | .raises message => s.respond dumps index ⟨id, .none, .str message⟩ drain

/-- `method(**request["__data"])`. -/
def callMethod (s : Server) (index : Nat) (call : Invocation) (result : Option MethodResult)
    (drain : Drain) : Option Server :=
  match call.data, result with
  | .dict _, result =>
      let s := s.note index fun task =>
        { task with phase := .running call.id, invocation := some call }
      match result with
      | none => some s
      | some result => some (s.settle dumps index call.id result drain)
  -- A `TypeError`: the method is not called.
  | _, some (.raises message) => some (s.respond dumps index ⟨call.id, .none, .str message⟩ drain)
  | _, _ => none

/-- `process_incoming_request`. -/
def processIncomingRequest (s : Server) (index : Nat) (request : PyValue)
    (result : Option MethodResult) (drain : Drain) : Option Server :=
  match request.get? "__id", request.get? "__method", request.get? "__data" with
  | some id, some (.str method), some data =>
      match service method with
      | .missing =>
          some (s.respond dumps index
            ⟨id, .none, .str ("Method " ++ method ++ " doesn't exist.")⟩ drain)
      | .notCallable =>
          some (s.respond dumps index
            ⟨id, .none, .str ("Method " ++ method ++ " isn't callable.")⟩ drain)
      | .callable => s.callMethod dumps index ⟨id, method, data⟩ result drain
  -- `hasattr` raises a `TypeError`, which ends the task.
  | some _, some _, some _ => some (s.setPhase index .finished)
  | _, _, _ => some (s.disconnect.setPhase index .finished)

/-- `process_data`. -/
def processData (s : Server) (index : Nat) (data : List UInt8) (result : Option MethodResult)
    (drain : Drain) : Option Server :=
  match loads data with
  | none =>
      -- A `RecursionError` ends the task and nothing else.
      if tooDeep data then some (s.setPhase index .finished)
      else some (s.disconnect.setPhase index .finished)
  | some request => s.processIncomingRequest dumps service index request result drain

/-- A read that gives no line. -/
def endRead (s : Server) : ReadEnd → Server
  | .closed => s.finalize
  | .broken => s.finalize
  | .tooLong => s.finalize.finalize

def step (s : Server) : ServerAction → Option Server
  | .readLine data =>
      if s.reading then
        -- A line may still come when the connection has just ended; no other is read then.
        some { s with tasks := s.tasks ++ [.fresh data], reading := s.connected }
      else none
  | .endRead how =>
      if s.reading then
        some { s.endRead how with reading := false }
      else none
  | .begin index result drain =>
      match s.tasks[index]? with
      | none => none
      | some task =>
          match task.phase with
          | .created =>
              if task.cancelling then none
              else s.processData loads tooDeep dumps service index task.data result drain
          | _ => none
  | .finish index result drain =>
      match s.tasks[index]? with
      | none => none
      | some task =>
          match task.phase with
          -- Also when it was cancelled: a method may not let itself be cancelled.
          | .running id => some (s.settle dumps index id result drain)
          | _ => none
  | .acquire index drain =>
      match s.tasks[index]? with
      | none => none
      | some task =>
          match task.phase with
          | .locking data =>
              if !task.cancelling && !s.locked && !(s.tasks.take index).any RequestTask.isWaiting
              then some (s.write index data drain)
              else none
          | _ => none
  | .drained index ok =>
      match s.tasks[index]? with
      | none => none
      | some task =>
          if task.phase.isDraining && !task.cancelling then
            some (if ok then s.setPhase index .finished else s.finalize.setPhase index .finished)
          else none
  | .cancelled index =>
      match s.tasks[index]? with
      | none => none
      | some task =>
          match task.phase with
          | .finished => none
          -- A method may raise it by itself.
          | .running _ => some (s.setPhase index .finished)
          | _ => if task.cancelling then some (s.setPhase index .finished) else none

end Server

/-- The runs of a server on one connection. -/
def serverMachine (loads : List UInt8 → Option PyValue) (tooDeep : List UInt8 → Bool)
    (dumps : PyValue → Option (List UInt8)) (service : String → Attribute) :
    Machine Server ServerAction where
  init := fun s => s = .fresh
  step := Server.step loads tooDeep dumps service

end Rpc
end Io
end ContestManagement
