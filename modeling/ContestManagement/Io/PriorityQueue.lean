import Mathlib.Data.List.Sort
import Mathlib.Tactic

/-!
# The priority queue of the asynchronous services

`cms/io/async_priorityqueue.py` stores its entries in a heap next to a reverse
dictionary from items to heap positions.  Here the heap is the list of its
entries in the order `pop` gives them out, which is the order of
`QueueEntry.__lt__`, and the reverse dictionary is a search by key.  The key of
an item is what its `__eq__` compares: an item may carry more (the side data of
an operation), and that travels with it.
-/

namespace ContestManagement
namespace Io

/-- `QueueEntry`. -/
structure QueueEntry (α : Type) where
  item : α
  priority : Int
  timestamp : Int
  index : Nat
  deriving DecidableEq, Repr

/-- `QueueEntry.__lt__`: by priority, then by timestamp, then by insertion. -/
def QueueEntry.before {α : Type} (e f : QueueEntry α) : Bool :=
  e.priority < f.priority ||
    (e.priority = f.priority &&
      (e.timestamp < f.timestamp || (e.timestamp = f.timestamp && e.index < f.index)))

/-- The queue; `lastDefaultTimestamp` is the last timestamp given by default. -/
structure AsyncPriorityQueue (α : Type) where
  entries : List (QueueEntry α)
  nextIndex : Nat
  lastDefaultTimestamp : Option Int
  deriving DecidableEq, Repr

/-- The timestamp of an entry pushed at `now`, after the last default one: the default never goes back,
in steps of one microsecond. -/
def stampAfter (last timestamp : Option Int) (now : Int) : Int :=
  match timestamp, last with
  | some t, _ => t
  | none, none => now
  | none, some last => max now (last + 1)

/-- `PRIORITY_MEDIUM`, the default priority. -/
def priorityMedium : Int := 2

namespace AsyncPriorityQueue

variable {α κ : Type}

/-- An empty queue. -/
def empty (α : Type) : AsyncPriorityQueue α := ⟨[], 0, none⟩

/-- Put an entry where the heap would give it out. -/
def insertEntry (e : QueueEntry α) : List (QueueEntry α) → List (QueueEntry α)
  | [] => [e]
  | f :: rest => if e.before f then e :: f :: rest else f :: insertEntry e rest

theorem insertEntry_perm (e : QueueEntry α) (entries : List (QueueEntry α)) :
    (insertEntry e entries).Perm (e :: entries) := by
  induction entries with
  | nil => exact List.Perm.refl _
  | cons f rest ih =>
      unfold insertEntry
      split_ifs
      · exact List.Perm.refl _
      · exact (ih.cons f).trans (List.Perm.swap e f rest)

variable [DecidableEq κ]

/-- `item in queue`. -/
def contains (key : α → κ) (q : AsyncPriorityQueue α) (k : κ) : Bool :=
  q.entries.any fun e => key e.item = k

/-- `push`: whether the item was pushed, and the new queue. -/
def push (key : α → κ) (q : AsyncPriorityQueue α) (item : α) (priority timestamp : Option Int)
    (now : Int) : Bool × AsyncPriorityQueue α :=
  if q.contains key (key item) then (false, q)
  else
    let stamp := stampAfter q.lastDefaultTimestamp timestamp now
    (true,
      { entries := insertEntry ⟨item, priority.getD priorityMedium, stamp, q.nextIndex⟩ q.entries
        nextIndex := q.nextIndex + 1
        lastDefaultTimestamp := if timestamp.isNone then some stamp else q.lastDefaultTimestamp })

/-- `pop` of a queue that is not empty. -/
def pop (q : AsyncPriorityQueue α) : Option (QueueEntry α × AsyncPriorityQueue α) :=
  match q.entries with
  | [] => none
  | e :: rest => some (e, { q with entries := rest })

/-- `remove`; `none` when it raises `KeyError`. -/
def remove (key : α → κ) (q : AsyncPriorityQueue α) (k : κ) : Option (AsyncPriorityQueue α) :=
  if q.contains key k then
    some { q with entries := q.entries.eraseP fun e => key e.item = k }
  else none

/-- The first `count` entries, as `count` calls of `pop` give them. -/
def popMany (q : AsyncPriorityQueue α) (count : Nat) :
    List (QueueEntry α) × AsyncPriorityQueue α :=
  (q.entries.take count, { q with entries := q.entries.drop count })

end AsyncPriorityQueue

end Io
end ContestManagement
