import Mathlib.Data.List.Basic
import Mathlib.Logic.Function.Basic
import Mathlib.Tactic

/-!
# The worker pool of EvaluationService

`cms/service/workerpool.py` keeps, for each worker shard, a row of parallel
dictionaries (operations, ignore marks, start time, dispatch id, clocks, disable
flags) and one reverse map from operations to shards.  Here the row is a
`Worker` and the pool is a `WorkerPool`; the methods are state passing functions
that return the new pool next to their result, also when they raise, because a
method that raises may already have written some field.

`make_datetime()` is an argument (`now`) and `random.choice` is an index
(`pick`) reduced modulo the number of candidates, so that every choice of the
environment is an explicit input.
-/

namespace ContestManagement
namespace Service

/-- `_operations[shard]`: `WORKER_INACTIVE`, `WORKER_DISABLED`, or the operations
the worker was given. -/
inductive Assignment (Op : Type) where
  | inactive
  | disabled
  | busy (operations : List Op)
  deriving DecidableEq, Repr

/-- The row of one shard. -/
structure Worker (Op : Type) where
  /-- `_worker[shard].connected`, the state of the RPC client. -/
  connected : Bool
  operations : Assignment Op
  operationsToIgnore : List Op
  startTime : Option Int
  scheduleDisabling : Bool
  ignore : Bool
  currentDispatch : Option Nat
  answeredAt : Option Int
  dispatchedAt : Option Int
  timeout : Int
  disabledByTimeout : Bool
  disabledAt : Option Int
  deriving DecidableEq, Repr

/-- The errors the methods raise, with the text of their messages. -/
inductive PoolError where
  | keyError
  | valueError (message : String)
  | assertionError
  | lookupError
  deriving DecidableEq, Repr

structure WorkerPool (Op : Type) where
  /-- The keys of `_worker`, in the order they were added. -/
  shards : List Nat
  worker : Nat → Worker Op
  operationsReverse : Op → Option Nat
  lastDispatchId : Nat
  workersAvailable : Bool

/-- What `release_worker` answers: a verdict on the whole job group, or the list
of the operations whose results are to be ignored. -/
inductive Release (Op : Type) where
  | verdict (ignored : Bool)
  | partly (toIgnore : List Op)
  deriving DecidableEq, Repr

/-- `WORKER_TIMEOUT`, in seconds. -/
def workerTimeout : Int := 600

/-- `ANSWER_HANDLING_TIMEOUT`, in seconds. -/
def answerHandlingTimeout : Int := 1800

/-- The row `add_worker` writes; a worker is not connected when it is added. -/
def Worker.fresh (Op : Type) : Worker Op where
  connected := false
  operations := .inactive
  operationsToIgnore := []
  startTime := none
  scheduleDisabling := false
  ignore := false
  currentDispatch := none
  answeredAt := none
  dispatchedAt := none
  timeout := workerTimeout
  disabledByTimeout := false
  disabledAt := none

/-- Whether a job group has been waiting longer than it may. -/
def Worker.expired {Op : Type} (w : Worker Op) (start now : Int) : Bool :=
  match w.answeredAt with
  | some answeredAt => !(now - answeredAt ≤ answerHandlingTimeout)
  | none =>
      match w.dispatchedAt with
      | none => !(now - start ≤ answerHandlingTimeout)
      | some dispatchedAt => !(now - dispatchedAt ≤ w.timeout)

/-- The flags `check_timeouts` sets before it releases a worker. -/
def Worker.timedOut {Op : Type} (w : Worker Op) (now : Int) : Worker Op :=
  { w with
    scheduleDisabling := true
    ignore := true
    disabledByTimeout := true
    disabledAt := some now }

/-- The flags `disable_worker` sets before it releases a worker. -/
def Worker.scheduledForDisabling {Op : Type} (w : Worker Op) : Worker Op :=
  { w with
    scheduleDisabling := true
    operationsToIgnore := []
    ignore := true }

namespace WorkerPool

variable {Op : Type}

/-- Write the row of one shard. -/
def setWorker (p : WorkerPool Op) (shard : Nat) (w : Worker Op) : WorkerPool Op :=
  { p with worker := Function.update p.worker shard w }

/-- The pool before any `add_worker`. -/
def empty (Op : Type) : WorkerPool Op where
  shards := []
  worker := fun _ => Worker.fresh Op
  operationsReverse := fun _ => none
  lastDispatchId := 0
  workersAvailable := false

def addWorker (p : WorkerPool Op) (shard : Nat) : WorkerPool Op :=
  { p.setWorker shard (Worker.fresh Op) with
    shards := p.shards ++ [shard]
    workersAvailable := true }

/-- `EvaluationExecutor.__init__` adds the shards `0, ..., count - 1`. -/
def withWorkers (Op : Type) (count : Nat) : WorkerPool Op :=
  (List.range count).foldl addWorker (empty Op)

variable [DecidableEq Op]

/-- `_remove_operations`: take the operations away from a shard.  An operation
that was later assigned to another worker too keeps that worker's entry. -/
def removeOperations (p : WorkerPool Op) (shard : Nat) (newOperation : Assignment Op) :
    WorkerPool Op :=
  let operations := (p.worker shard).operations
  let q := p.setWorker shard { p.worker shard with operations := newOperation }
  match operations with
  | .busy ops =>
      { q with
        operationsReverse := ops.foldl
          (fun reverse op =>
            if reverse op = some shard then Function.update reverse op none else reverse)
          q.operationsReverse }
  | _ => q

/-- `_add_operations`: assign operations to a worker that is inactive. -/
def addOperations (p : WorkerPool Op) (shard : Nat) (operations : List Op) :
    Except PoolError Unit × WorkerPool Op :=
  if (p.worker shard).operations ≠ .inactive then
    -- The shard is a second argument of the exception, so the text keeps its `%s`.
    (.error (.valueError "Shard %s is already doing an operation."), p)
  else
    let q := p.setWorker shard { p.worker shard with operations := .busy operations }
    (.ok (),
      { q with
        operationsReverse := operations.foldl
          (fun reverse op => Function.update reverse op (some shard)) q.operationsReverse })

/-- The shards `find_worker` collects for an operation or a placeholder. -/
def findWorkers (p : WorkerPool Op) (operation : Assignment Op) (requireConnection : Bool) :
    List Nat :=
  p.shards.filter fun shard =>
    (p.worker shard).operations = operation &&
      (!requireConnection || (p.worker shard).connected)

/-- `acquire_worker`: the shard and the dispatch id, or `none` when no connected
worker is inactive. -/
def acquireWorker (p : WorkerPool Op) (operations : List Op) (pick : Nat) (now : Int) :
    Except PoolError (Option (Nat × Nat)) × WorkerPool Op :=
  let pool := p.findWorkers .inactive true
  match pool[pick % pool.length]? with
  | none => (.ok none, { p with workersAvailable := false })
  | some shard =>
      match p.addOperations shard operations with
      | (.error e, q) => (.error e, q)
      | (.ok (), q) =>
          let dispatchId := q.lastDispatchId + 1
          let w := { q.worker shard with
            startTime := some now
            answeredAt := none
            dispatchedAt := none
            timeout := workerTimeout
            currentDispatch := some dispatchId }
          (.ok (some (shard, dispatchId)), { q.setWorker shard w with lastDispatchId := dispatchId })

/-- `_mark_answered`. -/
def markAnswered (p : WorkerPool Op) (shard : Nat) (dispatchId : Option Nat) (now : Int) :
    WorkerPool Op :=
  match dispatchId with
  | none => p
  | some d =>
      if (p.worker shard).currentDispatch = some d then
        p.setWorker shard { p.worker shard with answeredAt := some now }
      else p

/-- `_set_timeout`, with the timeout already computed from the job group. -/
def setTimeout (p : WorkerPool Op) (shard : Nat) (dispatchId : Option Nat) (timeout now : Int) :
    WorkerPool Op :=
  match dispatchId with
  | none => p
  | some d =>
      if (p.worker shard).currentDispatch = some d then
        p.setWorker shard { p.worker shard with timeout := timeout, dispatchedAt := some now }
      else p

/-- `release_worker`.  The rows of unknown shards do not exist, so `get` gives no
dispatch for them and any other access raises. -/
def releaseWorker (p : WorkerPool Op) (shard : Nat) (dispatchId : Option Nat) :
    Except PoolError (Release Op) × WorkerPool Op :=
  let current := if shard ∈ p.shards then (p.worker shard).currentDispatch else none
  if dispatchId ≠ none ∧ dispatchId ≠ current then
    (.ok (.verdict true), p)
  else if shard ∉ p.shards then
    (.error .keyError, p)
  else
    match (p.worker shard).operations with
    | .inactive =>
        (.error (.valueError "Trying to release worker while it's inactive."), p)
    | .disabled => (.ok (.verdict true), p)
    | .busy _ =>
        let w := p.worker shard
        let ret := w.ignore
        let toIgnore := w.operationsToIgnore
        let q := p.setWorker shard { w with
          operationsToIgnore := []
          startTime := none
          currentDispatch := none
          answeredAt := none
          dispatchedAt := none
          ignore := false }
        let q :=
          if w.scheduleDisabling then
            let q := q.removeOperations shard .disabled
            q.setWorker shard { q.worker shard with scheduleDisabling := false }
          else
            { q.removeOperations shard .inactive with workersAvailable := true }
        if ret = false ∧ toIgnore ≠ [] then
          (.ok (.partly toIgnore), q)
        else
          (.ok (.verdict ret), q)

/-- `ignore_operation`: mark the operation at the shard the reverse map names. -/
def ignoreOperation (p : WorkerPool Op) (operation : Op) :
    Except PoolError Unit × WorkerPool Op :=
  match p.operationsReverse operation with
  | none => (.error .lookupError, p)
  | some shard =>
      let w := p.worker shard
      (.ok (), p.setWorker shard
        { w with operationsToIgnore := w.operationsToIgnore ++ [operation] })

/-- The loop of `check_timeouts` over the shards that are left. -/
def checkTimeoutsLoop (now : Int) : List Nat → List Op → WorkerPool Op →
    Except PoolError (List Op) × WorkerPool Op
  | [], lost, p => (.ok lost, p)
  | shard :: rest, lost, p =>
      let w := p.worker shard
      match w.startTime with
      | none => checkTimeoutsLoop now rest lost p
      | some start =>
          if !w.expired start now then checkTimeoutsLoop now rest lost p
          else
            match w.operations with
            -- The assertion that the worker is busy.
            | .inactive => (.error .assertionError, p)
            | .disabled => (.error .assertionError, p)
            | .busy ops =>
                let lost :=
                  if w.ignore then lost
                  else lost ++ ops.filter fun op => op ∉ w.operationsToIgnore
                match (p.setWorker shard (w.timedOut now)).releaseWorker shard none with
                | (.error e, q) => (.error e, q)
                | (.ok _, q) => checkTimeoutsLoop now rest lost q

/-- `check_timeouts`: the operations lost with the workers that timed out. -/
def checkTimeouts (p : WorkerPool Op) (now : Int) :
    Except PoolError (List Op) × WorkerPool Op :=
  checkTimeoutsLoop now p.shards [] p

/-- `disable_worker`: the operations lost with the worker. -/
def disableWorker (p : WorkerPool Op) (shard : Nat) :
    Except PoolError (List Op) × WorkerPool Op :=
  -- For an unknown shard the two writes below make keys nothing reads.
  if shard ∉ p.shards then (.error .keyError, p)
  else
    let p := p.setWorker shard { p.worker shard with
      disabledByTimeout := false
      disabledAt := none }
    let w := p.worker shard
    match w.operations with
    | .disabled =>
        (.error (.valueError
          ("Trying to disable already disabled worker " ++ toString shard ++ ".")), p)
    | .inactive =>
        (.ok [], p.setWorker shard { w with operations := .disabled })
    | .busy ops =>
        let lost := if w.ignore then [] else ops.filter fun op => op ∉ w.operationsToIgnore
        match (p.setWorker shard w.scheduledForDisabling).releaseWorker shard none with
        | (.error e, q) => (.error e, q)
        | (.ok _, q) => (.ok lost, q)

/-- `enable_worker`. -/
def enableWorker (p : WorkerPool Op) (shard : Nat) : Except PoolError Unit × WorkerPool Op :=
  if shard ∉ p.shards then (.error .keyError, p)
  else
    match (p.worker shard).operations with
    | .disabled =>
        (.ok (), { p.setWorker shard { p.worker shard with
            operations := .inactive
            operationsToIgnore := []
            disabledByTimeout := false
            disabledAt := none } with workersAvailable := true })
    | _ =>
        (.error (.valueError
          ("Trying to enable worker " ++ toString shard ++ " which is not disabled.")), p)

/-- The RPC client connects, and calls `on_worker_connected`. -/
def onWorkerConnected (p : WorkerPool Op) (shard : Nat) : WorkerPool Op :=
  let p := p.setWorker shard { p.worker shard with connected := true }
  let p :=
    if (p.worker shard).operations = .disabled ∧ (p.worker shard).disabledByTimeout = true then
      (p.enableWorker shard).2
    else p
  { p with workersAvailable := true }

/-- The RPC client loses its connection. -/
def onWorkerDisconnected (p : WorkerPool Op) (shard : Nat) : WorkerPool Op :=
  p.setWorker shard { p.worker shard with connected := false }

/-- The loop of `check_connections` over the shards that are left.  Unlike the
other two recoveries it returns the ignored operations too. -/
def checkConnectionsLoop : List Nat → List Op → WorkerPool Op →
    Except PoolError (List Op) × WorkerPool Op
  | [], lost, p => (.ok lost, p)
  | shard :: rest, lost, p =>
      let w := p.worker shard
      match w.operations with
      | .busy ops =>
          if w.connected then checkConnectionsLoop rest lost p
          else
            let lost := if w.ignore then lost else lost ++ ops
            match p.releaseWorker shard none with
            | (.error e, q) => (.error e, q)
            | (.ok _, q) => checkConnectionsLoop rest lost q
      | _ => checkConnectionsLoop rest lost p

/-- `check_connections`: the operations lost with the disconnected workers. -/
def checkConnections (p : WorkerPool Op) : Except PoolError (List Op) × WorkerPool Op :=
  checkConnectionsLoop p.shards [] p

end WorkerPool

end Service
end ContestManagement
