import ContestManagement.Events.Format
import ContestManagement.Lib.Dict
import ContestManagement.Lib.TimedMerge
import Mathlib.Data.Finset.Basic
import Mathlib.Data.List.DropRight
import Mathlib.Data.Prod.Lex

/-!
# The publisher of events

`Publisher` of `cmscommon/eventsource.py` keeps the newest messages in a cache, and the newest ones
of each type in a cache of this type.  A subscriber who gives the id of a message is sent the newer
ones again, out of the common cache or, if there are types that he must not get, out of the caches
of the other types, merged by `heapq.merge`.

The key of a message is the time at which it was published, in microseconds.
-/

namespace ContestManagement
namespace Events

open Lib

/-- A published message, and the text that goes over the wire. -/
structure Message where
  key : ℕ
  event : Option Text
  data : Option Text
  text : Text
  deriving DecidableEq

/-- What is put into the queue of a subscriber. -/
inductive Item
  | message (msg : Message)
  /-- The request to reinit, without a data line and with one. -/
  | reinit
  | reinitWithData
  deriving DecidableEq

/-- The queue of a subscriber, with the types of event it must not get. -/
structure Subscription where
  dropped : Finset Text
  queue : List Item
  deriving DecidableEq

structure Publisher where
  size : ℕ
  created : ℕ
  cache : List Message
  cacheByEvent : Dict (Option Text) (List Message)
  evicted : Dict (Option Text) ℕ
  subQueues : ℕ → Option Subscription

/-- `deque.append` for a deque with a greatest length. -/
def append {α : Type} (size : ℕ) (deque : List α) (x : α) : List α :=
  (deque ++ [x]).rtake size

/-- `event in dropped`. -/
def isDropped (dropped : Finset Text) (event : Option Text) : Bool :=
  event.any (· ∈ dropped)

/-! ## Ids -/

/-- `"%x" % key`. -/
def hexId (key : ℕ) : Text := Nat.toDigits 16 key

def hexDigit (c : Char) : Option ℕ :=
  if '0' ≤ c ∧ c ≤ '9' then some (c.toNat - '0'.toNat)
  else if 'a' ≤ c ∧ c ≤ 'f' then some (c.toNat - 'a'.toNat + 10)
  else if 'A' ≤ c ∧ c ≤ 'F' then some (c.toNat - 'A'.toNat + 10)
  else none

/-- `int(id, 16)`, if the id matches `^[0-9A-Fa-f]+$`; the dollar sign lets one line break pass. -/
def parseId (id : Text) : Option ℕ :=
  let digits := if id.getLast? = some '\n' then id.dropLast else id
  if digits = [] then none
  else digits.foldlM (fun key c => (hexDigit c).map (16 * key + ·)) 0

theorem hexDigit_digitChar : ∀ digit < 16, hexDigit (Nat.digitChar digit) = some digit := by
  decide

theorem digitChar_ne : ∀ digit < 16, Nat.digitChar digit ≠ '\n' := by
  decide

theorem foldlM_hexId (key : ℕ) :
    (hexId key).foldlM (fun key c => (hexDigit c).map (16 * key + ·)) 0 = some key := by
  induction key using Nat.strong_induction_on with
  | _ key ih =>
    unfold hexId at ih ⊢
    rw [Nat.toDigits_eq_if (by decide)]
    split
    · rename_i hlt
      simp [hexDigit_digitChar key hlt]
    · rename_i hge
      rw [List.foldlM_append, ih (key / 16) (by omega)]
      simp [hexDigit_digitChar (key % 16) (by omega)]
      omega

theorem getLast?_hexId (key : ℕ) : (hexId key).getLast? ≠ some '\n' := by
  unfold hexId
  rw [Nat.toDigits_eq_if (by decide)]
  split
  · rename_i hlt
    simp [digitChar_ne key hlt]
  · simp [digitChar_ne (key % 16) (Nat.mod_lt key (by decide))]

/-- The id of a message gives its key. -/
theorem parseId_hexId (key : ℕ) : parseId (hexId key) = some key := by
  have hne : hexId key ≠ [] := Nat.toDigits_ne_nil
  unfold parseId
  rw [if_neg (getLast?_hexId key)]
  dsimp only
  rw [if_neg hne, foldlM_hexId]

/-! ## The methods of a publisher -/

/-- The order in which `heapq.merge` takes the messages of several caches. -/
def mergeRank (msg : Message) (index : ℕ) : ℕ ×ₗ ℕ := toLex (msg.key, index)

/-- `heapq.merge(*caches, key=itemgetter(0))`. -/
def mergeCaches (caches : List (List Message)) : List Message :=
  let queue := Source.queueOf mergeRank (caches.zipIdx.map Prod.swap)
  (Source.merge mergeRank (fun _ => false) (Source.size queue) queue).map Prod.snd

namespace Publisher

/-- A new publisher, created at a time. -/
def new (size created : ℕ) : Publisher where
  size := size
  created := created
  cache := []
  cacheByEvent := Dict.empty
  evicted := Dict.empty
  subQueues := fun _ => none

variable (p : Publisher)

/-- What `put` does with a message that is formatted. -/
def add (msg : Message) : Publisher :=
  let cache := (p.cacheByEvent.get? msg.event).getD []
  { p with
    cache := append p.size p.cache msg
    cacheByEvent := p.cacheByEvent.set msg.event (append p.size cache msg)
    evicted :=
      if cache.length = p.size then
        -- with no room at all, this message never gets in
        p.evicted.set msg.event ((cache.head?.map Message.key).getD msg.key)
      else p.evicted
    subQueues := fun queue => (p.subQueues queue).map fun sub =>
      if isDropped sub.dropped msg.event then sub
      else { sub with queue := sub.queue ++ [.message msg] } }

/-- `put`, at the time that the clock shows. -/
def put (key : ℕ) (event data : Option Text) : Except ValueError Publisher := do
  let text ← formatEvent (hexId key) event data
  return p.add ⟨key, event, data, text⟩

/-- The types of event that a subscriber gets, in the order of the caches. -/
def keptEvents (dropped : Finset Text) : List (Option Text) :=
  p.cacheByEvent.keys.filter fun event => !isDropped dropped event

/-- The caches of the kept types have every message newer than this. -/
def completeSince (dropped : Finset Text) : ℕ :=
  ((p.keptEvents dropped).filterMap p.evicted.get?).foldl max p.created

/-- The cache has not every message newer than the one with the key. -/
def outdated (lastEventKey : ℕ) : Bool :=
  match p.cache with
  | [] => true
  | oldest :: _ => lastEventKey < oldest.key

def replayAll (lastEventKey : ℕ) : List Item :=
  if p.outdated lastEventKey then [.reinit]
  else (p.cache.filter (lastEventKey < ·.key)).map .message

/-- `_replay_some`. -/
def replaySome (lastEventKey : ℕ) (dropped : Finset Text) : List Item :=
  let caches := (p.keptEvents dropped).map fun event => (p.cacheByEvent.get? event).getD []
  if p.completeSince dropped ≤ lastEventKey then
    ((mergeCaches caches).filter (lastEventKey < ·.key)).map .message
  else [.reinitWithData]

/-- What `get_subscriber` puts into the queue of the new subscriber. -/
def replay (lastEventId : Option Text) (dropped : Finset Text) : List Item :=
  match lastEventId.bind parseId with
  | none => []
  | some lastEventKey =>
      if dropped.Nonempty then p.replaySome lastEventKey dropped
      else p.replayAll lastEventKey

def getSubscriber (queue : ℕ) (lastEventId : Option Text) (dropped : Finset Text) : Publisher :=
  { p with
    subQueues :=
      Function.update p.subQueues queue (some ⟨dropped, p.replay lastEventId dropped⟩) }

/-! ## Runs -/

/-- What happens to a publisher: a message is published, a subscriber comes, takes the next item of
his queue, or goes. -/
inductive Label
  | put (key : ℕ) (event data : Option Text)
  | getSubscriber (queue : ℕ) (lastEventId : Option Text) (dropped : Finset Text)
  | get (queue : ℕ)
  | vanish (queue : ℕ)

/-- A message with an illegal type is refused before anything changes. -/
def step (p : Publisher) : Label → Publisher
  | .put key event data =>
      match p.put key event data with
      | .error _ => p
      | .ok next => next
  | .getSubscriber queue lastEventId dropped => p.getSubscriber queue lastEventId dropped
  | .get queue =>
      { p with
        subQueues := Function.update p.subQueues queue
          ((p.subQueues queue).map fun sub => { sub with queue := sub.queue.tail }) }
  | .vanish queue => { p with subQueues := Function.update p.subQueues queue none }

def run (p : Publisher) (labels : List Label) : Publisher := labels.foldl step p

/-- The message that a label publishes, if its type is legal. -/
def Label.message : Label → Option Message
  | .put key event data =>
      match formatEvent (hexId key) event data with
      | .error _ => none
      | .ok text => some ⟨key, event, data, text⟩
  | _ => none

variable {p}

theorem step_put (key : ℕ) (event data : Option Text) :
    p.step (.put key event data) = ((Label.put key event data).message.map p.add).getD p := by
  rw [step, put, Label.message]
  cases formatEvent (hexId key) event data with
  | error e => rfl
  | ok text => rfl

end Publisher

end Events
end ContestManagement
