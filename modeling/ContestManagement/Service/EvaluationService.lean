import ContestManagement.Io.PriorityQueue
import ContestManagement.Service.FlushingDict
import ContestManagement.Service.Operations
import ContestManagement.Service.WorkerPool

/-!
# EvaluationService

The part of `cms/service/EvaluationService.py` an operation travels through: the
queue, the executor, the worker pool, the result cache, and the loop actions that
the sections of `post_finish_lock` schedule.

Two kinds of threads act.  A background thread runs *sections*, one at a time:
sweeps and requests enqueue operations, an invalidation dequeues operations,
discards cached results and then enqueues, a write of results enqueues what
follows, and the handling of an answer is a section of its own.  The event loop
runs its callbacks in the order they were scheduled (`ready`), and the executor,
the flushes and the recoveries in between.  Every step below is one such call.

Each accepted enqueue makes a new copy of the operation, and the copy travels
with the operation object, as its side data does; it is not part of the code.
-/

namespace ContestManagement
namespace Service

open Io

/-- An operation object: the operation its `__eq__` compares, and its copy. -/
structure Queued where
  operation : ESOperation
  copy : Nat
  deriving DecidableEq, Repr

/-- The worker's result for an operation.  `ref` is the identity of the object,
which is what the `discarded` mark belongs to. -/
structure Result where
  ref : Nat
  jobSuccess : Bool
  copy : Nat
  deriving DecidableEq, Repr

/-- A callback of the event loop: a loop action, or the first step of the task
`_build_and_dispatch` that `acquire_worker` spawns. -/
inductive Callback where
  | push (item : Queued) (priority timestamp : Int)
  | dequeue (operation : ESOperation)
  | start (dispatchId : Nat)
  deriving DecidableEq, Repr

/-- The actions recorded in `_pending_operations`. -/
inductive PendingAction where
  | push
  | dequeue
  deriving DecidableEq, Repr

/-- A task `_build_and_dispatch` that has not reported back yet. -/
structure Dispatch where
  id : Nat
  shard : Nat
  items : List Queued
  started : Bool
  deriving DecidableEq, Repr

/-- How far the callback of a flush has come. -/
inductive FlushPhase where
  | taken
  | writing
  | written
  deriving DecidableEq, Repr

/-- A flush of the result cache, with the items its callback got. -/
structure Flush where
  batch : Nat
  items : List (ESOperation × Result)
  phase : FlushPhase
  deriving DecidableEq, Repr

/-- The section that holds `post_finish_lock`. -/
inductive Section where
  /-- Only enqueues are left to do. -/
  | enqueuing
  /-- An invalidation: the operations it still has to dequeue, and all of those
  whose results it will discard. -/
  | dequeuing (todo : List ESOperation) (operations : List ESOperation)
  /-- `_write_results_sync` of a batch; it ends with enqueues. -/
  | writing (batch : Nat)
  deriving DecidableEq, Repr

structure EvaluationService where
  queue : AsyncPriorityQueue Queued
  /-- `_currently_executing`. -/
  executing : List Queued
  pool : WorkerPool ESOperation
  dispatches : List Dispatch
  /-- The callbacks of the event loop, in the order it will run them. -/
  ready : List Callback
  /-- `_loop_actions`, the buffer of the section. -/
  loopActions : List Callback
  pendingOperations : ESOperation → Option (PendingAction × Nat)
  dequeuedInSection : List ESOperation
  lockedBy : Option Section
  resultCache : FlushingDict ESOperation Result
  flushes : List Flush
  /-- The results whose `discarded` mark is set. -/
  discarded : List Nat
  /-- The results written to the database. -/
  written : List (ESOperation × Result)
  nextCopy : Nat
  nextRef : Nat

namespace EvaluationService

/-- The service at start, with `count` workers. -/
def start (count : Nat) : EvaluationService where
  queue := AsyncPriorityQueue.empty Queued
  executing := []
  pool := WorkerPool.withWorkers ESOperation count
  dispatches := []
  ready := []
  loopActions := []
  pendingOperations := fun _ => none
  dequeuedInSection := []
  lockedBy := none
  resultCache := FlushingDict.empty ESOperation Result
  flushes := []
  discarded := []
  written := []
  nextCopy := 0
  nextRef := 0

/-! ### The executor -/

/-- `EvaluationExecutor.__contains__`. -/
def inExecutor (s : EvaluationService) (op : ESOperation) : Bool :=
  s.queue.contains Queued.operation op ||
    (s.executing.any fun item => item.operation = op) ||
    (s.pool.operationsReverse op).isSome

/-- `MAX_OPERATIONS_PER_BATCH`. -/
def maxOperationsPerBatch : Nat := 25

/-- `max_operations_per_batch`, with the length of the queue after the first pop. -/
def batchSize (s : EvaluationService) : Nat :=
  if s.pool.shards.length = 0 then 1
  else
    let ratio := (s.queue.entries.length - 1) / s.pool.shards.length + 1
    min (max ratio 1) maxOperationsPerBatch

/-- `AsyncExecutor.run` takes a batch from the queue and starts `execute` on it;
nothing is awaited in between. -/
def pop (s : EvaluationService) : Option EvaluationService :=
  if s.executing = [] ∧ s.queue.entries ≠ [] then
    let (batch, queue) := s.queue.popMany s.batchSize
    some { s with queue := queue, executing := batch.map QueueEntry.item }
  else none

/-- The loop of `execute` asks for a worker.  Asking also when none is announced
only adds runs. -/
def dispatch (s : EvaluationService) (pick : Nat) (now : Int) : Option EvaluationService :=
  if s.executing = [] then none
  else
    match s.pool.acquireWorker (s.executing.map Queued.operation) pick now with
    | (.ok (some (shard, id)), pool) =>
        some { s with
          pool := pool
          executing := []
          dispatches := s.dispatches ++ [⟨id, shard, s.executing, false⟩]
          ready := s.ready ++ [.start id] }
    | (_, pool) => some { s with pool := pool }

/-- `EvaluationExecutor.dequeue`; nothing changes when it raises `KeyError`. -/
def dequeue (s : EvaluationService) (op : ESOperation) : EvaluationService :=
  match s.queue.remove Queued.operation op with
  | some queue => { s with queue := queue }
  | none => { s with executing := s.executing.eraseP fun item => item.operation = op }

/-! ### The loop actions -/

/-- `_record_pending`. -/
def recordPending (s : EvaluationService) (op : ESOperation) (action : PendingAction) :
    EvaluationService :=
  let count := match s.pendingOperations op with
    | some (_, count) => count
    | none => 0
  { s with
    pendingOperations := Function.update s.pendingOperations op (some (action, count + 1)) }

/-- `_clear_pending_one`. -/
def clearPendingOne (s : EvaluationService) (op : ESOperation) : EvaluationService :=
  { s with
    pendingOperations := Function.update s.pendingOperations op
      (match s.pendingOperations op with
        | some (action, count) => if count ≤ 1 then none else some (action, count - 1)
        | none => none) }

/-- `pool.ignore_operation`, with its `LookupError` caught. -/
def ignoreOperation (s : EvaluationService) (op : ESOperation) : EvaluationService :=
  { s with pool := (s.pool.ignoreOperation op).2 }

/-- `_flush_loop_actions`. -/
def flushLoopActions (s : EvaluationService) : EvaluationService :=
  { s with ready := s.ready ++ s.loopActions, loopActions := [] }

/-- One callback of the loop.  `_run_loop_actions` applies a whole buffer in one
callback; one action at a time only adds runs. -/
def runCallback (s : EvaluationService) : Callback → EvaluationService
  | .push item priority timestamp =>
      { s with
        queue := (s.queue.push Queued.operation item (some priority) (some timestamp) 0).2
      }.clearPendingOne item.operation
  | .dequeue op => ((s.dequeue op).ignoreOperation op).clearPendingOne op
  | .start id =>
      { s with
        dispatches := s.dispatches.map fun d => if d.id = id then { d with started := true } else d }

/-- The loop runs its next callback. -/
def runReady (s : EvaluationService) : Option EvaluationService :=
  match s.ready with
  | [] => none
  | callback :: rest => some ({ s with ready := rest }.runCallback callback)

/-! ### Sections -/

/-- `_enqueue_sync`: whether the operation was pushed. -/
def enqueueSync (s : EvaluationService) (op : ESOperation) (priority timestamp : Int) :
    Bool × EvaluationService :=
  let pendingAction : Option PendingAction := (s.pendingOperations op).map Prod.fst
  if pendingAction = some .push then (false, s)
  -- An operation that was dequeued is trusted not to be in the executor.
  else if ¬(pendingAction = some .dequeue ∨ op ∈ s.dequeuedInSection) ∧ s.inExecutor op then
    (false, s)
  else if s.resultCache.contains op then (false, s)
  else
    (true, { s.recordPending op .push with
      loopActions := s.loopActions ++ [.push ⟨op, s.nextCopy⟩ priority timestamp]
      nextCopy := s.nextCopy + 1 })

/-- `_threadsafe_dequeue_and_ignore`. -/
def dequeueAndIgnore (s : EvaluationService) (op : ESOperation) : EvaluationService :=
  let recorded : EvaluationService := { s.recordPending op .dequeue with
    dequeuedInSection := s.dequeuedInSection ++ [op]
    loopActions := s.loopActions ++ [.dequeue op] }
  recorded.flushLoopActions.ignoreOperation op

/-- `_discard_cached_results`. -/
def discardCachedResults (s : EvaluationService) (operations : List ESOperation) :
    EvaluationService :=
  let keys := operations.map ESOperation.key
  let (discarded, cache) := s.resultCache.discard fun op => op.key ∈ keys
  { s with resultCache := cache, discarded := s.discarded ++ discarded.map Result.ref }

/-- The end of a section; `_write_results_sync` has returned when it was one. -/
def closeSection (s : EvaluationService) : Option EvaluationService :=
  match s.lockedBy with
  | none => none
  | some holder =>
      let closed : EvaluationService :=
        { s with dequeuedInSection := [], lockedBy := none }.flushLoopActions
      match holder with
      | .writing batch =>
          some { closed with
            flushes := closed.flushes.map fun f =>
              if f.batch = batch then { f with phase := .written } else f }
      | _ => some closed

/-! ### Answers and results -/

/-- Put the results of a job group in the cache, but for the ignored operations.
`failed` are the operations whose job did not succeed. -/
def cacheResults (s : EvaluationService) (toIgnore failed : List ESOperation) :
    List Queued → EvaluationService
  | [] => s
  | item :: rest =>
      if item.operation ∈ toIgnore then s.cacheResults toIgnore failed rest
      else
        cacheResults { s with
          resultCache := s.resultCache.add item.operation
            ⟨s.nextRef, item.operation ∉ failed, item.copy⟩
          nextRef := s.nextRef + 1 } toIgnore failed rest

/-- `_action_finished_sync` for a task that has started.  `failed` is `none` when
the answer is an error or cannot be read. -/
def answer (s : EvaluationService) (id : Nat) (failed : Option (List ESOperation)) :
    Option EvaluationService :=
  if s.lockedBy = none then
    match s.dispatches.find? fun d => d.id = id ∧ d.started with
    | none => none
    | some d =>
        let released : EvaluationService := { s with
          dispatches := s.dispatches.filter fun d => d.id ≠ id
          pool := (s.pool.releaseWorker d.shard (some id)).2 }
        match (s.pool.releaseWorker d.shard (some id)).1, failed with
        | .ok (.verdict false), some failed => some (released.cacheResults [] failed d.items)
        | .ok (.partly toIgnore), some failed =>
            some (released.cacheResults toIgnore failed d.items)
        | _, _ => some released
  else none

/-- The first half of a flush. -/
def takeFlush (s : EvaluationService) : EvaluationService :=
  let ((batch, items), cache) := s.resultCache.takeBatch
  { s with resultCache := cache, flushes := s.flushes ++ [⟨batch, items, .taken⟩] }

/-- `_write_results_sync` takes the lock and writes the results that are not
discarded.  A row that cannot be written is only skipped. -/
def writeResults (s : EvaluationService) (batch : Nat) : Option EvaluationService :=
  if s.lockedBy = none then
    match s.flushes.find? fun f => f.batch = batch ∧ f.phase = .taken with
    | none => none
    | some f =>
        some { s with
          lockedBy := some (.writing batch)
          written := s.written ++ f.items.filter fun item => item.2.ref ∉ s.discarded
          flushes := s.flushes.map fun f =>
            if f.batch = batch then { f with phase := .writing } else f }
  else none

/-- The second half of a flush, once the callback has returned. -/
def endFlush (s : EvaluationService) (batch : Nat) : Option EvaluationService :=
  match s.flushes.find? fun f => f.batch = batch ∧ f.phase = .written with
  | some _ =>
      some { s with
        resultCache := s.resultCache.dropBatch batch
        flushes := s.flushes.filter fun f => f.batch ≠ batch }
  | none => none

end EvaluationService

/-- One atomic call, with what the environment chooses. -/
inductive ServiceAction where
  | openSection
  | openInvalidation (level : Level) (submissions : List JudgedSubmission)
      (datasetId : Option Nat)
  | dequeueNext
  | discardCached
  | enqueue (operation : ESOperation) (priority timestamp : Int)
  | closeSection
  | runReady
  | pop
  | dispatch (pick : Nat) (now : Int)
  | answer (id : Nat) (failed : Option (List ESOperation))
  | takeFlush
  | writeResults (batch : Nat)
  | endFlush (batch : Nat)
  | setTimeout (shard id : Nat) (timeout now : Int)
  | markAnswered (shard id : Nat) (now : Int)
  | checkTimeouts (now : Int)
  | checkConnections
  | disableWorker (shard : Nat)
  | enableWorker (shard : Nat)
  | connected (shard : Nat)
  | disconnected (shard : Nat)
  deriving DecidableEq, Repr

namespace EvaluationService

/-- One step.  The recoveries only take the operations back: putting them in the
queue again is left to later enqueues, each a section of its own. -/
def step (s : EvaluationService) : ServiceAction → Option EvaluationService
  | .openSection =>
      if s.lockedBy = none then some { s with lockedBy := some .enqueuing } else none
  | .openInvalidation level submissions datasetId =>
      let operations := getRelevantOperations level submissions datasetId
      if s.lockedBy = none then
        some { s with lockedBy := some (.dequeuing (withTwins operations) operations) }
      else none
  | .dequeueNext =>
      match s.lockedBy with
      | some (.dequeuing (op :: todo) operations) =>
          some { s.dequeueAndIgnore op with lockedBy := some (.dequeuing todo operations) }
      | _ => none
  | .discardCached =>
      match s.lockedBy with
      | some (.dequeuing [] operations) =>
          some { s.discardCachedResults operations with lockedBy := some .enqueuing }
      | _ => none
  | .enqueue op priority timestamp =>
      match s.lockedBy with
      | some .enqueuing => some (s.enqueueSync op priority timestamp).2
      | some (.writing _) => some (s.enqueueSync op priority timestamp).2
      | _ => none
  | .closeSection => s.closeSection
  | .runReady => s.runReady
  | .pop => s.pop
  | .dispatch pick now => s.dispatch pick now
  | .answer id failed => s.answer id failed
  | .takeFlush => some s.takeFlush
  | .writeResults batch => s.writeResults batch
  | .endFlush batch => s.endFlush batch
  | .setTimeout shard id timeout now =>
      some { s with pool := s.pool.setTimeout shard (some id) timeout now }
  | .markAnswered shard id now => some { s with pool := s.pool.markAnswered shard (some id) now }
  | .checkTimeouts now => some { s with pool := (s.pool.checkTimeouts now).2 }
  | .checkConnections => some { s with pool := s.pool.checkConnections.2 }
  | .disableWorker shard => some { s with pool := (s.pool.disableWorker shard).2 }
  | .enableWorker shard => some { s with pool := (s.pool.enableWorker shard).2 }
  | .connected shard =>
      if shard ∈ s.pool.shards then some { s with pool := s.pool.onWorkerConnected shard }
      else none
  | .disconnected shard =>
      if shard ∈ s.pool.shards then some { s with pool := s.pool.onWorkerDisconnected shard }
      else none

end EvaluationService

end Service
end ContestManagement
