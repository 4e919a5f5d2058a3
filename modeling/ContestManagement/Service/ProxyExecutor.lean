import ContestManagement.Io.PriorityQueue
import ContestManagement.Lib.Dict
import ContestManagement.Lib.Machine
import Mathlib.Data.Rat.Defs

/-!
# The executor of ProxyService

`ProxyExecutor` of `cms/service/ProxyService.py` sends to one ranking the operations
that are queued for its namespaces.  A round takes the whole queue, merges the data of
each namespace and type into one request, and puts back what the ranking could not take.

The answers of the ranking to the requests of a round are part of the label of the
round, and the requests with their answers are kept in `trace`.  An operation is an
object, equal only to itself: its identity is the number of operations enqueued before
it.
-/

namespace ContestManagement
namespace Service

open Lib Io

/-- The entity types, in the order in which they are sent. -/
inductive EntityType where
  | contest
  | task
  | team
  | user
  | submission
  | subchange
  deriving DecidableEq, Repr

def EntityType.all : List EntityType :=
  [.contest, .task, .team, .user, .submission, .subchange]

/-- The namespace of a ranking group; `none` is the root. -/
abbrev Namespace := Option String

/-- What an operation does: it empties the namespace, sends its visibility settings, or
sends entities by id. -/
inductive Payload (V : Type) where
  | reset
  | visibility (settings : Dict String V)
  | entities (type_ : EntityType) (data : Dict String V)
  deriving DecidableEq

structure ProxyOperation (V : Type) where
  payload : Payload V
  group : Namespace
  deriving DecidableEq

/-- An operation with its identity. -/
structure ProxyItem (V : Type) where
  id : Nat
  operation : ProxyOperation V
  deriving DecidableEq

/-- An entry of the queue. -/
abbrev ProxyEntry (V : Type) := QueueEntry (ProxyItem V)

namespace ProxyEntry

variable {V : Type}

def id (entry : ProxyEntry V) : Nat := entry.item.id

def group (entry : ProxyEntry V) : Namespace := entry.item.operation.group

/-- The settings of an entry that sends visibility settings. -/
def settings (entry : ProxyEntry V) : Dict String V :=
  match entry.item.operation.payload with
  | .visibility settings => settings
  | _ => .empty

/-- The data of an entry that sends entities. -/
def data (entry : ProxyEntry V) : Dict String V :=
  match entry.item.operation.payload with
  | .entities _ data => data
  | _ => .empty

end ProxyEntry

/-! ### Requests -/

/-- What becomes of a request.  A refusal comes with its status, or without one when the
data cannot be encoded and is not sent. -/
inductive Response where
  | delivered
  | refused (status : Option Nat)
  | undelivered
  deriving DecidableEq, Repr

inductive SendOutcome where
  | sent
  | rejected
  | unsent
  deriving DecidableEq, Repr

/-- `INVALID_DATA_STATUS`. -/
def invalidDataStatus : Nat := 400

/-- What a request asks for. -/
inductive RequestKind (V : Type) where
  /-- Delete the entities of one resource. -/
  | reset (path : EntityType)
  /-- The settings of an operation, which is given by its identity. -/
  | visibility (id : Nat) (settings : Dict String V)
  | entities (type_ : EntityType) (data : Dict String V)
  deriving DecidableEq

/-- A request to a namespace, and what became of it. -/
structure Request (V : Type) where
  group : Namespace
  kind : RequestKind V
  response : Response
  deriving DecidableEq

/-- Entities that the ranking has taken or refused. -/
structure Answer (V : Type) where
  group : Namespace
  type_ : EntityType
  data : Dict String V
  deriving DecidableEq

/-- A list refused with this status is sent again one entity at a time: it has more than
one, and it cannot be encoded or is refused as invalid. -/
def splits {V : Type} (data : Dict String V) (status : Option Nat) : Bool :=
  1 < data.items.length && (status = none || status = some invalidDataStatus)

/-- The entities in a request that the ranking has taken or refused.  The refusal of a
list that is split says nothing about any of them. -/
def Request.answer {V : Type} : Request V → Option (Answer V)
  | ⟨group, .entities type_ data, .delivered⟩ => some ⟨group, type_, data⟩
  | ⟨group, .entities type_ data, .refused status⟩ =>
      if splits data status then none else some ⟨group, type_, data⟩
  | _ => none

/-- An entity that was refused on its own. -/
structure RefusedEntity (V : Type) where
  group : Namespace
  type_ : EntityType
  key : String
  value : V
  deriving DecidableEq

/-- The connection to the ranking during a round. -/
structure Wire (V : Type) where
  /-- What the coming requests get; the ranking is unreachable afterwards. -/
  responses : List Response
  /-- The requests of the round, in order. -/
  requests : List (Request V)
  lastRefusalStatus : Option Nat
  rejectedVisibility : List Namespace
  refusedInRound : List (RefusedEntity V)

namespace Wire

variable {V : Type}

/-- The entities that the ranking has taken or refused in the round. -/
def answered (w : Wire V) : List (Answer V) :=
  w.requests.filterMap Request.answer

/-- One request. -/
def attempt (w : Wire V) (group : Namespace) (kind : RequestKind V) : SendOutcome × Wire V :=
  let response := w.responses.head?.getD .undelivered
  let rest := { w with
    responses := w.responses.tail
    requests := w.requests ++ [⟨group, kind, response⟩] }
  match response with
  | .delivered => (.sent, rest)
  | .refused status => (.rejected, { rest with lastRefusalStatus := status })
  | .undelivered => (.unsent, rest)

/-- `_send` of entities. -/
def send (w : Wire V) (group : Namespace) (type_ : EntityType) (data : Dict String V) :
    SendOutcome × Wire V :=
  w.attempt group (.entities type_ data)

/-- `RESET_RESOURCE_PATHS`. -/
def resetResourcePaths : List EntityType := [.contest, .user]

/-- `_send` of a reset: one request for each resource, up to the first that fails. -/
def sendReset (w : Wire V) (group : Namespace) : List EntityType → SendOutcome × Wire V
  | [] => (.sent, w)
  | path :: rest =>
      match w.attempt group (.reset path) with
      | (.sent, w) => sendReset w group rest
      | failed => failed

/-- `_track_visibility`. -/
def trackVisibility (w : Wire V) (group : Namespace) : SendOutcome → Wire V
  | .rejected =>
      if group ∈ w.rejectedVisibility then w
      else { w with rejectedVisibility := w.rejectedVisibility ++ [group] }
  | .sent => { w with rejectedVisibility := w.rejectedVisibility.filter (· ≠ group) }
  | .unsent => w

/-- The part of `_report_refused` that is not logging. -/
def reportRefused (w : Wire V) (group : Namespace) (type_ : EntityType)
    (refused : List (String × V)) : Wire V :=
  { w with refusedInRound := w.refusedInRound ++
      refused.map fun item => ⟨group, type_, item.1, item.2⟩ }

/-- An entity of a refused list is sent alone; without a split it gets the refusal of
the list. -/
def sendEntity (group : Namespace) (type_ : EntityType) (split : Bool) (w : Wire V)
    (item : String × V) : SendOutcome × Wire V :=
  if split then w.send group type_ (.singleton item.1 item.2) else (.rejected, w)

/-- The loop of `_send_type` over the entities of a refused list.  The result has the
ids that were done when the ranking stopped answering, if it did. -/
def sendAlone (group : Namespace) (type_ : EntityType) (split : Bool) (w : Wire V)
    (refused : List (String × V)) (done : List String) :
    List (String × V) → Option (List String) × Wire V
  | [] => (none, w.reportRefused group type_ refused)
  | item :: rest =>
      match sendEntity group type_ split w item with
      | (.unsent, w) => (some done, w.reportRefused group type_ refused)
      | (.sent, w) => sendAlone group type_ split w refused (done ++ [item.1]) rest
      | (.rejected, w) =>
          match w.lastRefusalStatus with
          | none => sendAlone group type_ split w refused (done ++ [item.1]) rest
          | some status =>
              if status = invalidDataStatus then
                sendAlone group type_ split w (refused ++ [item]) (done ++ [item.1]) rest
              else (none, w.reportRefused group type_ refused)

/-- `_send_type`: the outcome and the entries to send again. -/
def sendType (w : Wire V) (group : Namespace) (type_ : EntityType) (entries : List (ProxyEntry V))
    (data : Dict String V) : SendOutcome × List (ProxyEntry V) × Wire V :=
  match w.send group type_ data with
  | (.sent, w) => (.sent, [], w)
  | (.unsent, w) => (.unsent, entries, w)
  | (.rejected, w) =>
      match sendAlone group type_ (splits data w.lastRefusalStatus) w [] [] data.items with
      | (none, w) => (.sent, [], w)
      | (some done, w) =>
          (.unsent, entries.filter fun entry => ¬entry.data.keys ⊆ done, w)

end Wire

/-! ### One batch -/

/-- The entries of a batch by namespace. -/
structure Batch (V : Type) where
  pending : Dict Namespace (EntityType → List (ProxyEntry V))
  resets : Dict Namespace (ProxyEntry V)
  visibilities : Dict Namespace (ProxyEntry V)

namespace Batch

variable {V : Type}

def empty : Batch V := ⟨.empty, .empty, .empty⟩

/-- The loop of `_send_batch_sync` over the entries. -/
def add (batch : Batch V) (entry : ProxyEntry V) : Batch V :=
  let group := entry.item.operation.group
  match entry.item.operation.payload with
  | .reset =>
      { batch with
        pending := batch.pending.erase group
        resets := batch.resets.set group entry }
  | .visibility _ => { batch with visibilities := batch.visibilities.set group entry }
  | .entities type_ _ =>
      let groupEntries := (batch.pending.get? group).getD fun _ => []
      { batch with pending := batch.pending.set group fun type' =>
          if type' = type_ then groupEntries type' ++ [entry] else groupEntries type' }

def ofEntries (entries : List (ProxyEntry V)) : Batch V :=
  entries.foldl add empty

end Batch

/-- The state of `_send_batch_sync`: the ids of the entries to send again, and the
namespaces where something could not be delivered. -/
structure Sending (V : Type) where
  wire : Wire V
  unsent : List Nat
  stalled : List Namespace

namespace Sending

variable {V : Type}

/-- A reset that could not be delivered holds back what follows. -/
def reset (s : Sending V) (item : Namespace × ProxyEntry V) : Sending V :=
  match s.wire.sendReset item.1 Wire.resetResourcePaths with
  | (.unsent, wire) => ⟨wire, s.unsent ++ [item.2.id], s.stalled ++ [item.1]⟩
  | (_, wire) => { s with wire }

def visibility (s : Sending V) (item : Namespace × ProxyEntry V) : Sending V :=
  if item.1 ∈ s.stalled then { s with unsent := s.unsent ++ [item.2.id] }
  else
    match s.wire.attempt item.1 (.visibility item.2.id item.2.settings) with
    | (.unsent, wire) =>
        ⟨wire.trackVisibility item.1 .unsent, s.unsent ++ [item.2.id], s.stalled ++ [item.1]⟩
    | (outcome, wire) => { s with wire := wire.trackVisibility item.1 outcome }

/-- The iteration for one type of a namespace. -/
def entities (group : Namespace) (groupEntries : EntityType → List (ProxyEntry V)) (s : Sending V)
    (type_ : EntityType) : Sending V :=
  let entries := groupEntries type_
  let data := Dict.updates (entries.map ProxyEntry.data)
  if data.items = [] then s
  else if group ∈ s.stalled then { s with unsent := s.unsent ++ entries.map ProxyEntry.id }
  else
    match s.wire.sendType group type_ entries data with
    | (.unsent, again, wire) =>
        ⟨wire, s.unsent ++ again.map ProxyEntry.id, s.stalled ++ [group]⟩
    | (_, _, wire) => { s with wire }

/-- The data of the namespace is dropped: its settings stand refused, and no new ones
are on their way. -/
def drops (s : Sending V) (group : Namespace) : Bool :=
  group ∈ s.wire.rejectedVisibility && group ∉ s.stalled

/-- The iteration for one namespace. -/
def namespaceData (s : Sending V) (item : Namespace × (EntityType → List (ProxyEntry V))) :
    Sending V :=
  if s.drops item.1 then s else EntityType.all.foldl (entities item.1 item.2) s

/-- The resets and the visibility settings of a batch. -/
def settings (batch : Batch V) (wire : Wire V) : Sending V :=
  batch.visibilities.items.foldl visibility (batch.resets.items.foldl reset ⟨wire, [], []⟩)

/-- `_send_batch_sync`. -/
def sendBatch (entries : List (ProxyEntry V)) (wire : Wire V) : Sending V :=
  let batch := Batch.ofEntries entries
  batch.pending.items.foldl namespaceData (settings batch wire)

end Sending

/-! ### The executor -/

/-- `MIN_RETRY_WAIT` and `MAX_RETRY_WAIT`, in seconds. -/
def minRetryWait : ℚ := 1

def maxRetryWait : ℚ := 60

/-- A round in progress: its entries, and the clock when it started. -/
structure ProxyRound (V : Type) where
  entries : List (ProxyEntry V)
  started : ℚ
  deriving DecidableEq

/-- What is seen of the executor from outside: it takes an operation from its queue, and
it sends a request. -/
inductive ProxyEvent (V : Type) where
  | taken (item : ProxyItem V)
  | requested (request : Request V)
  deriving DecidableEq

structure ProxyExecutor (V : Type) where
  queue : AsyncPriorityQueue (ProxyItem V)
  retryWaits : Dict Namespace ℚ
  retryAfter : Dict Namespace ℚ
  rejectedVisibility : List Namespace
  lastRefusalStatus : Option Nat
  round : Option (ProxyRound V)
  /-- The operations in the order in which they were enqueued. -/
  enqueued : List (ProxyOperation V)
  trace : List (ProxyEvent V)
  /-- What was handed to `on_refused`. -/
  refused : List (RefusedEntity V)
  deriving DecidableEq

namespace ProxyExecutor

variable {V : Type}

def start : ProxyExecutor V :=
  ⟨.empty _, .empty, .empty, [], none, none, [], [], []⟩

/-- `_is_due`. -/
def isDue (ex : ProxyExecutor V) (group : Namespace) (now : ℚ) : Bool :=
  (ex.retryAfter.get? group).getD now ≤ now

/-- `enqueue`, with the default priority and timestamp. -/
def enqueue (ex : ProxyExecutor V) (operation : ProxyOperation V) (now : ℤ) : ProxyExecutor V :=
  { ex with
    queue := (ex.queue.push ProxyItem.id ⟨ex.enqueued.length, operation⟩ none none now).2
    enqueued := ex.enqueued ++ [operation] }

/-- The executor takes the whole queue. -/
def startRound (ex : ProxyExecutor V) (now : ℚ) : Option (ProxyExecutor V) :=
  if ex.round.isNone ∧ ex.queue.entries ≠ [] then
    some { ex with
      queue := { ex.queue with entries := [] }
      round := some ⟨ex.queue.entries, now⟩
      trace := ex.trace ++ ex.queue.entries.map fun entry => .taken entry.item }
  else none

/-- The entries of a round that are tried. -/
def ready (ex : ProxyExecutor V) (round : ProxyRound V) : List (ProxyEntry V) :=
  round.entries.filter fun entry => ex.isDue entry.group round.started

/-- The connection at the start of a batch. -/
def wire (ex : ProxyExecutor V) (responses : List Response) : Wire V :=
  ⟨responses, [], ex.lastRefusalStatus, ex.rejectedVisibility, []⟩

/-- `_send_batch_sync` of what is tried. -/
def sendReady (ex : ProxyExecutor V) (round : ProxyRound V) (responses : List Response) :
    Sending V :=
  Sending.sendBatch (ex.ready round) (ex.wire responses)

/-- What a failure does to the wait of its namespace. -/
def backOff (now : ℚ) (ex : ProxyExecutor V) (group : Namespace) : ProxyExecutor V :=
  let wait := (ex.retryWaits.get? group).getD minRetryWait
  { ex with
    retryWaits := ex.retryWaits.set group (min (2 * wait) maxRetryWait)
    retryAfter := ex.retryAfter.set group (now + wait) }

/-- A namespace that got all its data starts over. -/
def progress (ex : ProxyExecutor V) (group : Namespace) : ProxyExecutor V :=
  { ex with
    retryWaits := ex.retryWaits.erase group
    retryAfter := ex.retryAfter.erase group }

/-- Put entries back as they were. -/
def putBack (queue : AsyncPriorityQueue (ProxyItem V)) (waiting : List (ProxyEntry V)) :
    AsyncPriorityQueue (ProxyItem V) :=
  waiting.foldl (fun queue entry =>
    (queue.push ProxyItem.id entry.item (some entry.priority) (some entry.timestamp) 0).2) queue

/-- The entries of a round that go back to the queue. -/
def waiting (ex : ProxyExecutor V) (round : ProxyRound V) (unsent : List Nat) :
    List (ProxyEntry V) :=
  round.entries.filter fun entry =>
    entry.id ∈ unsent ∨ ¬ex.isDue entry.group round.started

/-- The rest of `execute`: the requests get these responses, and the clock is at `now`
when they are over. -/
def finishRound (ex : ProxyExecutor V) (responses : List Response) (now : ℚ) :
    Option (ProxyExecutor V) :=
  ex.round.map fun round =>
    let ready := ex.ready round
    let sending := ex.sendReady round responses
    let unsent := ready.filter fun entry => entry.id ∈ sending.unsent
    let failed := (unsent.map ProxyEntry.group).dedup
    let progressed := (ready.map ProxyEntry.group).dedup.filter (· ∉ failed)
    let waits := progressed.foldl progress (failed.foldl (backOff now) ex)
    { waits with
      queue := putBack ex.queue (ex.waiting round sending.unsent)
      rejectedVisibility := sending.wire.rejectedVisibility
      lastRefusalStatus := sending.wire.lastRefusalStatus
      round := none
      trace := ex.trace ++ sending.wire.requests.map .requested
      refused := ex.refused ++ sending.wire.refusedInRound }

end ProxyExecutor

/-- What happens to the executor. -/
inductive ProxyAction (V : Type) where
  | enqueue (operation : ProxyOperation V) (now : ℤ)
  | startRound (now : ℚ)
  | finishRound (responses : List Response) (now : ℚ)

/-- The executor, with everything that can be enqueued and answered. -/
def proxyMachine (V : Type) : Machine (ProxyExecutor V) (ProxyAction V) where
  init ex := ex = .start
  step ex
    | .enqueue operation now => some (ex.enqueue operation now)
    | .startRound now => ex.startRound now
    | .finishRound responses now => ex.finishRound responses now

end Service
end ContestManagement
