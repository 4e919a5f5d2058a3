import Mathlib.Data.Prod.Lex
import Mathlib.Data.List.Perm.Basic
import ContestManagement.Lib.IndexedHeap
import ContestManagement.Io.PriorityQueue

/-!
# The heap under the priority queue

`AsyncPriorityQueue` of `cms/io/async_priorityqueue.py` as it stores its entries: a heap,
the reverse dictionary of the positions, the event that waiting listeners are woken by, and
the two counters.  The dictionary is keyed by what `__eq__` of an item compares.

A call of `pop` or `top` that waits on an empty queue changes nothing; when the event wakes
it, it looks at the queue again, which is a call of its own here.

`QueueLedger` is what the queue is for: the accepted pushes minus the pops and removals, each
with its latest priority, in the order in which they were accepted.  After any calls the
heap holds the entries of the ledger, and answers the next call as the ledger says.
-/

namespace ContestManagement
namespace Io

open Lib (IndexedHeap Dict)

namespace QueueEntry

variable {α : Type}

/-- What `__lt__` compares, in order. -/
def rank (e : QueueEntry α) : Int ×ₗ Int ×ₗ Nat := toLex (e.priority, toLex (e.timestamp, e.index))

theorem before_iff (e f : QueueEntry α) : e.before f = true ↔ e.rank < f.rank := by
  simp [before, rank, Prod.Lex.toLex_lt_toLex]

theorem index_eq_of_rank_eq {e f : QueueEntry α} (h : e.rank = f.rank) : e.index = f.index := by
  simp only [rank, EmbeddingLike.apply_eq_iff_eq, Prod.mk.injEq] at h
  exact h.2.2

end QueueEntry

/-- `AsyncPriorityQueue`: `_queue` and `_reverse`, `_event`, `_next_index` and
`_last_default_timestamp`. -/
structure HeapQueue (α κ : Type) where
  heap : IndexedHeap (QueueEntry α) κ
  event : Bool
  nextIndex : Nat
  lastDefaultTimestamp : Option Int
  deriving DecidableEq

/-- A call of one of the methods; `now` is what the clock shows to a push. -/
inductive Call (α κ : Type)
  | push (item : α) (priority timestamp : Option Int) (now : Int)
  | top (wait : Bool)
  | pop (wait : Bool)
  | remove (item : κ)
  | setPriority (item : κ) (priority : Int)
  deriving DecidableEq

/-- What a call returns or raises. -/
inductive Answer (α : Type)
  | pushed (accepted : Bool)
  | entry (e : QueueEntry α)
  | done
  | waits
  | lookupError
  | keyError
  deriving DecidableEq

namespace HeapQueue

variable {α κ : Type}

def new : HeapQueue α κ := ⟨IndexedHeap.empty, false, 0, none⟩

def length (q : HeapQueue α κ) : Nat := q.heap.queue.length

/-- `top`. -/
def top (q : HeapQueue α κ) (wait : Bool) : Answer α :=
  match q.heap.queue[0]? with
  | some e => .entry e
  | none => if wait then .waits else .lookupError

variable [DecidableEq κ] (key : α → κ)

/-- `push`. -/
def push (q : HeapQueue α κ) (item : α) (priority timestamp : Option Int) (now : Int) :
    Answer α × HeapQueue α κ :=
  if (q.heap.reverse.get? (key item)).isSome then (.pushed false, q)
  else
    let stamp := stampAfter q.lastDefaultTimestamp timestamp now
    let entry : QueueEntry α := ⟨item, priority.getD priorityMedium, stamp, q.nextIndex⟩
    (.pushed true,
      { heap := ((q.heap.append (key ·.item) entry).upHeap (key ·.item) QueueEntry.before
          q.length).1
        event := true
        nextIndex := q.nextIndex + 1
        lastDefaultTimestamp := if timestamp.isNone then some stamp else q.lastDefaultTimestamp })

/-- `pop`. -/
def pop (q : HeapQueue α κ) (wait : Bool) : Answer α × HeapQueue α κ :=
  match q.top wait with
  | .entry top =>
      let last := q.length - 1
      let heap := q.heap.deleteAt (key ·.item) 0 (key top.item)
      if 0 < last then
        (.entry top, { q with heap := (heap.downHeap (key ·.item) QueueEntry.before 0).1 })
      else (.entry top, { q with heap := heap, event := false })
  | answer => (answer, q)

/-- `remove`. -/
def remove (q : HeapQueue α κ) (item : κ) : Answer α × HeapQueue α κ :=
  match q.heap.reverse.get? item with
  | none => (.keyError, q)
  | some pos =>
      match q.heap.queue[pos]? with
      | none => (.lookupError, q)
      | some entry =>
          let last := q.length - 1
          let heap := q.heap.deleteAt (key ·.item) pos item
          let heap :=
            if pos ≠ last then (heap.updownHeap (key ·.item) QueueEntry.before pos).1 else heap
          (.entry entry, { q with heap := heap, event := q.event && !heap.queue.isEmpty })

/-- `set_priority`. -/
def setPriority (q : HeapQueue α κ) (item : κ) (priority : Int) : Answer α × HeapQueue α κ :=
  match q.heap.reverse.get? item with
  | none => (.keyError, q)
  | some pos =>
      match q.heap.queue[pos]? with
      | none => (.lookupError, q)
      | some entry =>
          let heap := q.heap.replace pos { entry with priority := priority }
          (.done, { q with heap := (heap.updownHeap (key ·.item) QueueEntry.before pos).1 })

def call (q : HeapQueue α κ) : Call α κ → Answer α × HeapQueue α κ
  | .push item priority timestamp now => q.push key item priority timestamp now
  | .top wait => (q.top wait, q)
  | .pop wait => q.pop key wait
  | .remove item => q.remove key item
  | .setPriority item priority => q.setPriority key item priority

variable {key} {q : HeapQueue α κ}

theorem pop_fst (wait : Bool) : (q.pop key wait).1 = q.top wait := by
  unfold pop
  cases q.top wait with
  | entry top =>
      dsimp only
      split <;> rfl
  | _ => rfl

end HeapQueue

/-! ## The ledger -/

/-- The entries a queue should hold, in the order of their pushes, the number of pushes
accepted so far, and the last timestamp given by default. -/
structure QueueLedger (α : Type) where
  entries : List (QueueEntry α)
  accepted : Nat
  lastDefault : Option Int
  deriving DecidableEq

namespace QueueLedger

variable {α κ : Type} [DecidableEq κ] (key : α → κ)

def empty : QueueLedger α := ⟨[], 0, none⟩

/-- The ledger without the entry of an item. -/
def strike (l : QueueLedger α) (item : κ) : QueueLedger α :=
  { l with entries := l.entries.filter fun e => key e.item ≠ item }

/-- Take a call and its answer into the ledger. -/
def note (l : QueueLedger α) : Call α κ → Answer α → QueueLedger α
  | .push item priority timestamp now, .pushed true =>
      let stamp := stampAfter l.lastDefault timestamp now
      { entries := l.entries ++ [⟨item, priority.getD priorityMedium, stamp, l.accepted⟩]
        accepted := l.accepted + 1
        lastDefault := if timestamp.isNone then some stamp else l.lastDefault }
  | .pop _, .entry e => l.strike key (key e.item)
  | .remove item, .entry _ => l.strike key item
  | .setPriority item priority, .done =>
      { l with entries := l.entries.map fun e =>
          if key e.item = item then { e with priority := priority } else e }
  | _, _ => l

/-- The entry that comes before every other one. -/
def IsLeast (l : QueueLedger α) (e : QueueEntry α) : Prop :=
  e ∈ l.entries ∧ ∀ f ∈ l.entries, f ≠ e → e.before f = true

/-- `top` and `pop`: the least entry, or how they find the queue empty. -/
def GivesLeast (l : QueueLedger α) (wait : Bool) (answer : Answer α) : Prop :=
  (l.entries = [] ∧ answer = if wait then .waits else .lookupError) ∨
    ∃ e, l.IsLeast e ∧ answer = .entry e

/-- The answer a call should get. -/
def Allows (l : QueueLedger α) : Call α κ → Answer α → Prop
  | .push item _ _ _, answer => answer = .pushed (decide (∀ e ∈ l.entries, key e.item ≠ key item))
  | .top wait, answer => l.GivesLeast wait answer
  | .pop wait, answer => l.GivesLeast wait answer
  | .remove item, answer =>
      ((∀ e ∈ l.entries, key e.item ≠ item) ∧ answer = .keyError) ∨
        ∃ e ∈ l.entries, key e.item = item ∧ answer = .entry e
  | .setPriority item _, answer =>
      answer = if ∃ e ∈ l.entries, key e.item = item then .done else .keyError

end QueueLedger

/-- The queue keeps its invariants and holds what the ledger says. -/
structure Faithful {α κ : Type} [DecidableEq κ] (key : α → κ) (q : HeapQueue α κ)
    (l : QueueLedger α) : Prop where
  /-- The entries are in heap order. -/
  heapOrder : q.heap.HeapOrdered QueueEntry.rank
  /-- The reverse map is the inverse of the positions. -/
  reverse : q.heap.ReverseExact (key ·.item)
  noItemTwice : (q.heap.queue.map (key ·.item)).Nodup
  event : q.event = true ↔ q.length ≠ 0
  contents : q.heap.queue.Perm l.entries
  nextIndex : q.nextIndex = l.accepted
  lastDefault : q.lastDefaultTimestamp = l.lastDefault
  /-- No two entries have one index. -/
  indices : l.entries.Pairwise fun e f => e.index < f.index
  indexBound : ∀ e ∈ l.entries, e.index < l.accepted

namespace Faithful

variable {α κ : Type} [DecidableEq κ] {key : α → κ} {q : HeapQueue α κ} {l : QueueLedger α}

theorem of_mem (hheap : q.heap.HeapOrdered QueueEntry.rank)
    (hexact : q.heap.ReverseExact (key ·.item)) (hevent : q.event = true ↔ q.length ≠ 0)
    (hmem : ∀ e, e ∈ q.heap.queue ↔ e ∈ l.entries) (hnext : q.nextIndex = l.accepted)
    (hlast : q.lastDefaultTimestamp = l.lastDefault)
    (hindices : l.entries.Pairwise fun e f => e.index < f.index)
    (hbound : ∀ e ∈ l.entries, e.index < l.accepted) : Faithful key q l where
  heapOrder := hheap
  reverse := hexact
  noItemTwice := hexact.nodup
  event := hevent
  contents := by
    have hqueue : q.heap.queue.Nodup := hexact.nodup.of_map _
    have hentries : l.entries.Nodup := hindices.imp fun hlt heq => absurd hlt (by simp [heq])
    exact (List.perm_ext_iff_of_nodup hqueue hentries).2 hmem
  nextIndex := hnext
  lastDefault := hlast
  indices := hindices
  indexBound := hbound

theorem new : Faithful key (HeapQueue.new : HeapQueue α κ) QueueLedger.empty := by
  refine of_mem ?_ ?_ ?_ ?_ rfl rfl List.Pairwise.nil (by simp [QueueLedger.empty])
  · intro c _ a b ha
    simp [HeapQueue.new, IndexedHeap.empty] at ha
  · intro k i
    simp [HeapQueue.new, IndexedHeap.empty, Dict.get?_empty]
  · simp [HeapQueue.new, HeapQueue.length, IndexedHeap.empty]
  · simp [HeapQueue.new, IndexedHeap.empty, QueueLedger.empty]

variable (hq : Faithful key q l)
include hq

theorem mem_iff {e : QueueEntry α} : e ∈ q.heap.queue ↔ e ∈ l.entries :=
  hq.contents.mem_iff

theorem entry_of_key {e f : QueueEntry α} (he : e ∈ l.entries) (hf : f ∈ l.entries)
    (hkey : key e.item = key f.item) : e = f :=
  List.inj_on_of_nodup_map hq.noItemTwice (hq.mem_iff.2 he) (hq.mem_iff.2 hf) hkey

/-- The indices are distinct, so the order of the entries is strict. -/
theorem before_of_rank_le {e f : QueueEntry α} (he : e ∈ l.entries) (hf : f ∈ l.entries)
    (hne : f ≠ e) (hle : e.rank ≤ f.rank) : e.before f = true := by
  rw [QueueEntry.before_iff]
  refine lt_of_le_of_ne hle fun heq => hne ?_
  have hindex := QueueEntry.index_eq_of_rank_eq heq
  have hdistinct : (l.entries.map QueueEntry.index).Nodup := by
    rw [List.Nodup, List.pairwise_map]
    exact hq.indices.imp fun hlt => Nat.ne_of_lt hlt
  exact List.inj_on_of_nodup_map hdistinct hf he hindex.symm

theorem root_isLeast {e : QueueEntry α} (hroot : q.heap.queue[0]? = some e) : l.IsLeast e := by
  have hmem : e ∈ l.entries := hq.mem_iff.1 (List.mem_of_getElem? hroot)
  refine ⟨hmem, fun f hf hne => hq.before_of_rank_le hmem hf hne ?_⟩
  obtain ⟨n, hn⟩ := List.mem_iff_getElem?.1 (hq.mem_iff.2 hf)
  exact hq.heapOrder.root_least n e f hroot hn

/-- The position the reverse map gives for an item holds its entry. -/
theorem entry_at {item : κ} {pos : Nat} (hpos : q.heap.reverse.get? item = some pos) :
    ∃ e ∈ l.entries, key e.item = item ∧ q.heap.queue[pos]? = some e := by
  obtain ⟨e, he, hkey⟩ := (hq.reverse item pos).1 hpos
  exact ⟨e, hq.mem_iff.1 (List.mem_of_getElem? he), hkey, he⟩

theorem absent_iff {item : κ} :
    q.heap.reverse.get? item = none ↔ ∀ e ∈ l.entries, key e.item ≠ item := by
  have hsome := hq.reverse.mem_keys_iff (k := item)
  rw [← Option.not_isSome_iff_eq_none, hsome]
  push Not
  exact forall_congr' fun e => by rw [hq.mem_iff]

/-! ## What the calls answer -/

theorem top_answer (wait : Bool) : l.GivesLeast wait (q.top wait) := by
  unfold HeapQueue.top
  cases hroot : q.heap.queue[0]? with
  | some e => exact Or.inr ⟨e, hq.root_isLeast hroot, rfl⟩
  | none =>
      refine Or.inl ⟨?_, rfl⟩
      rw [List.getElem?_eq_none_iff, Nat.le_zero, List.length_eq_zero_iff] at hroot
      have hperm := hq.contents
      rw [hroot] at hperm
      exact hperm.nil_eq.symm

theorem allows (call : Call α κ) : l.Allows key call (q.call key call).1 := by
  cases call with
  | push item priority timestamp now =>
      have habsent := @absent_iff _ _ _ _ _ _ hq (key item)
      simp only [QueueLedger.Allows, HeapQueue.call, HeapQueue.push]
      cases hget : q.heap.reverse.get? (key item) with
      | none => simpa using habsent.1 hget
      | some pos =>
          rw [hget] at habsent
          simpa using habsent
  | top wait => exact hq.top_answer wait
  | pop wait =>
      simp only [QueueLedger.Allows, HeapQueue.call]
      rw [HeapQueue.pop_fst]
      exact hq.top_answer wait
  | remove item =>
      simp only [QueueLedger.Allows, HeapQueue.call, HeapQueue.remove]
      cases hget : q.heap.reverse.get? item with
      | none => exact Or.inl ⟨hq.absent_iff.1 hget, rfl⟩
      | some pos =>
          obtain ⟨e, hmem, hkey, he⟩ := hq.entry_at hget
          simp only [he]
          exact Or.inr ⟨e, hmem, hkey, rfl⟩
  | setPriority item priority =>
      simp only [QueueLedger.Allows, HeapQueue.call, HeapQueue.setPriority]
      cases hget : q.heap.reverse.get? item with
      | none =>
          rw [if_neg]
          rintro ⟨e, hmem, hkey⟩
          exact hq.absent_iff.1 hget e hmem hkey
      | some pos =>
          obtain ⟨e, hmem, hkey, he⟩ := hq.entry_at hget
          simp only [he]
          rw [if_pos ⟨e, hmem, hkey⟩]

/-! ## What the calls keep -/

theorem push_faithful (item : α) (priority timestamp : Option Int) (now : Int) :
    Faithful key (q.push key item priority timestamp now).2
      (l.note key (.push item priority timestamp now) (q.push key item priority timestamp now).1) := by
  unfold HeapQueue.push
  cases hget : q.heap.reverse.get? (key item) with
  | some pos => exact hq
  | none =>
      have hnext := hq.nextIndex
      have hlast := hq.lastDefault
      simp only [Option.isSome_none, Bool.false_eq_true, if_false, QueueLedger.note, hnext, hlast]
      set entry : QueueEntry α :=
        ⟨item, priority.getD priorityMedium, stampAfter l.lastDefault timestamp now, l.accepted⟩
      have happend := hq.reverse.append (e := entry) hget
      have hmove := @IndexedHeap.ReverseExact.rearranged_upHeap _ _ _ _ _ QueueEntry.before happend q.length
      obtain ⟨haround, habove, hbelow⟩ := IndexedHeap.upHeap_ordered
        QueueEntry.before_iff _ q.length (hq.heapOrder.append (e := entry))
      refine of_mem (haround.heapOrdered habove (hbelow IndexedHeap.orderedBelow_append))
        hmove.exact ?_ ?_ rfl rfl ?_ ?_
      · have hlength := hmove.length
        simp only [IndexedHeap.append, List.length_append, List.length_singleton] at hlength
        simp only [HeapQueue.length, true_iff] at hlength ⊢
        exact ne_of_eq_of_ne hlength (Nat.succ_ne_zero _)
      · intro e
        rw [hmove.mem, IndexedHeap.mem_append, hq.mem_iff, List.mem_append, List.mem_singleton]
      · rw [List.pairwise_append]
        refine ⟨hq.indices, List.pairwise_singleton _ _, fun e he f hf => ?_⟩
        rw [List.mem_singleton] at hf
        subst hf
        exact hq.indexBound e he
      · intro e he
        rw [List.mem_append, List.mem_singleton] at he
        rcases he with he | rfl
        · exact Nat.lt_succ_of_lt (hq.indexBound e he)
        · exact Nat.lt_succ_self _

/-- A queue that lost one entry, with its heap put in order again. -/
theorem strike_faithful {e : QueueEntry α} {pos : Nat} {event : Bool}
    {heap : IndexedHeap (QueueEntry α) κ} (hpos : q.heap.queue[pos]? = some e)
    (hheap : heap.HeapOrdered QueueEntry.rank)
    (hmove : IndexedHeap.Rearranged (key ·.item)
      (q.heap.deleteAt (key ·.item) pos (key e.item)) heap)
    (hevent : event = true ↔ heap.queue.length ≠ 0) :
    Faithful key { q with heap := heap, event := event } (l.strike key (key e.item)) := by
  refine of_mem hheap hmove.exact hevent ?_ hq.nextIndex hq.lastDefault ?_ ?_
  · intro f
    have hdelete := hq.reverse.mem_deleteAt (f := f) hpos
    rw [hmove.mem, hdelete, hq.mem_iff]
    simp [QueueLedger.strike]
  · exact hq.indices.sublist List.filter_sublist
  · intro f hf
    exact hq.indexBound f (List.mem_of_mem_filter hf)

theorem pop_faithful (wait : Bool) :
    Faithful key (q.pop key wait).2 (l.note key (.pop wait) (q.pop key wait).1) := by
  unfold HeapQueue.pop HeapQueue.top
  cases hroot : q.heap.queue[0]? with
  | none =>
      dsimp only
      cases wait <;> exact hq
  | some e =>
      have hlen := (List.getElem?_eq_some_iff.1 hroot).1
      have hexact := hq.reverse.deleteAt hroot
      have hlength := @IndexedHeap.length_deleteAt _ _ _ (key ·.item) q.heap 0
        (key e.item)
      dsimp only
      split
      case isTrue hlast =>
        have hdown := @IndexedHeap.ReverseExact.rearranged_downHeap _ _ _ _ _ QueueEntry.before hexact 0
        refine hq.strike_faithful hroot ?_ hdown ?_
        · exact IndexedHeap.downHeap_ordered QueueEntry.before_iff _ 0
            (hq.heapOrder.deleteAt hroot) fun hpos => absurd hpos (Nat.lt_irrefl 0)
        · have hevent := hq.event
          rw [hdown.length, hlength]
          unfold HeapQueue.length at hevent hlast
          rw [hevent]
          omega
      case isFalse hlast =>
        -- The queue is empty now.
        unfold HeapQueue.length at hlast
        refine hq.strike_faithful hroot ?_ hexact.rearranged ?_
        · intro c hc a b ha hb
          have := (List.getElem?_eq_some_iff.1 hb).1
          omega
        · rw [hlength]
          simp only [Bool.false_eq_true, false_iff]
          omega

theorem remove_faithful (item : κ) :
    Faithful key (q.remove key item).2 (l.note key (.remove item) (q.remove key item).1) := by
  unfold HeapQueue.remove
  cases hget : q.heap.reverse.get? item with
  | none => exact hq
  | some pos =>
      obtain ⟨e, hmem, hkey, he⟩ := hq.entry_at hget
      subst hkey
      have hlen := (List.getElem?_eq_some_iff.1 he).1
      have hexact := hq.reverse.deleteAt he
      have hevent : q.event = true := hq.event.2 (by unfold HeapQueue.length; omega)
      simp only [he, hevent, Bool.true_and]
      refine hq.strike_faithful he ?_ ?_ (by simp)
      · split
        case isTrue =>
          exact IndexedHeap.updownHeap_ordered QueueEntry.before_iff (hq.heapOrder.deleteAt he)
        case isFalse hlast =>
          rw [not_not] at hlast
          subst hlast
          exact hq.heapOrder.deleteAt_last he
      · split
        case isTrue => exact hexact.rearranged_updownHeap pos
        case isFalse => exact hexact.rearranged

theorem setPriority_faithful (item : κ) (priority : Int) :
    Faithful key (q.setPriority key item priority).2
      (l.note key (.setPriority item priority) (q.setPriority key item priority).1) := by
  unfold HeapQueue.setPriority
  cases hget : q.heap.reverse.get? item with
  | none => exact hq
  | some pos =>
      obtain ⟨e, hmem, hkey, he⟩ := hq.entry_at hget
      subst hkey
      simp only [he]
      set changed : QueueEntry α := { e with priority := priority }
      have hexact := hq.reverse.replace (e := changed) he rfl
      have hmove := @IndexedHeap.ReverseExact.rearranged_updownHeap _ _ _ _ _ QueueEntry.before hexact pos
      refine of_mem
        (IndexedHeap.updownHeap_ordered QueueEntry.before_iff (hq.heapOrder.replace he))
        hmove.exact ?_ ?_ hq.nextIndex hq.lastDefault ?_ ?_
      · have hevent := hq.event
        simp only [HeapQueue.length, hmove.length] at hevent ⊢
        simpa [IndexedHeap.replace] using hevent
      · intro f
        have hreplace := hq.reverse.mem_replace (e := changed) (g := f) he
        rw [hmove.mem, hreplace, hq.mem_iff]
        simp only [QueueLedger.note, List.mem_map]
        constructor
        · rintro (rfl | ⟨hf, hne⟩)
          · exact ⟨e, hmem, if_pos rfl⟩
          · exact ⟨f, hf, if_neg hne⟩
        · rintro ⟨g, hg, rfl⟩
          split
          case isTrue hsame =>
            rw [hq.entry_of_key hg hmem hsame]
            exact Or.inl rfl
          case isFalse hother => exact Or.inr ⟨hg, hother⟩
      · simp only [QueueLedger.note, List.pairwise_map]
        refine hq.indices.imp fun hlt => ?_
        split <;> split <;> exact hlt
      · intro f hf
        simp only [QueueLedger.note, List.mem_map] at hf
        obtain ⟨g, hg, rfl⟩ := hf
        split <;> exact hq.indexBound g hg

theorem call_faithful (call : Call α κ) :
    Faithful key (q.call key call).2 (l.note key call (q.call key call).1) := by
  cases call with
  | push item priority timestamp now => exact hq.push_faithful item priority timestamp now
  | top wait =>
      cases htop : q.top wait <;> simpa [HeapQueue.call, htop, QueueLedger.note] using hq
  | pop wait => exact hq.pop_faithful wait
  | remove item => exact hq.remove_faithful item
  | setPriority item priority => exact hq.setPriority_faithful item priority

end Faithful

/-- The queue after some calls, with the ledger of the calls and their answers. -/
def afterCalls {α κ : Type} [DecidableEq κ] (key : α → κ) (calls : List (Call α κ)) :
    HeapQueue α κ × QueueLedger α :=
  calls.foldl (fun s call => ((s.1.call key call).2, s.2.note key call (s.1.call key call).1))
    (HeapQueue.new, QueueLedger.empty)

/-- After any calls the queue keeps its invariants, holds the entries of the ledger, and
answers the next call as the ledger says. -/
theorem priority_queue_faithful {α κ : Type} [DecidableEq κ] (key : α → κ)
    (calls : List (Call α κ)) (next : Call α κ) :
    Faithful key (afterCalls key calls).1 (afterCalls key calls).2 ∧
      (afterCalls key calls).2.Allows key next ((afterCalls key calls).1.call key next).1 := by
  have hfaithful : Faithful key (afterCalls key calls).1 (afterCalls key calls).2 := by
    unfold afterCalls
    induction calls using List.reverseRecOn with
    | nil => exact Faithful.new
    | append_singleton calls call ih =>
        rw [List.foldl_concat]
        exact ih.call_faithful call
  exact ⟨hfaithful, hfaithful.allows next⟩

/-! ## The list in pop order

`AsyncPriorityQueue` keeps the entries as the list in which `pop` gives them out.  The heap
simulates it: from matching states, a push, a pop or a removal has the same answer and ends
in matching states. -/

/-- The list has the entries of the heap in order, and the same counters. -/
structure Simulates {α κ : Type} (q : HeapQueue α κ) (s : AsyncPriorityQueue α) : Prop where
  sorted : s.entries.Pairwise fun e f => e.before f = true
  perm : s.entries.Perm q.heap.queue
  nextIndex : s.nextIndex = q.nextIndex
  lastDefault : s.lastDefaultTimestamp = q.lastDefaultTimestamp

theorem AsyncPriorityQueue.sorted_insertEntry {α : Type} {e : QueueEntry α}
    {entries : List (QueueEntry α)} (hsorted : entries.Pairwise fun e f => e.before f = true)
    (hfresh : ∀ f ∈ entries, f.index < e.index) :
    (insertEntry e entries).Pairwise fun e f => e.before f = true := by
  induction entries with
  | nil => exact List.pairwise_singleton _ _
  | cons f rest ih =>
      rw [List.pairwise_cons] at hsorted
      unfold insertEntry
      split
      case isTrue hbefore =>
        refine List.pairwise_cons.2 ⟨fun g hg => ?_, List.pairwise_cons.2 hsorted⟩
        rcases List.mem_cons.1 hg with rfl | hg
        · exact hbefore
        · have hfg := hsorted.1 g hg
          rw [QueueEntry.before_iff] at hbefore hfg ⊢
          exact hbefore.trans hfg
      case isFalse hbefore =>
        refine List.pairwise_cons.2 ⟨fun g hg => ?_, ih hsorted.2 fun g hg => hfresh g (by simp [hg])⟩
        rcases List.mem_cons.1 ((insertEntry_perm e rest).mem_iff.1 hg) with rfl | hg
        · -- Two entries that do not come before each other have one index.
          rw [QueueEntry.before_iff] at hbefore ⊢
          refine lt_of_le_of_ne (le_of_not_gt hbefore) fun heq => ?_
          have := hfresh f (by simp)
          rw [QueueEntry.index_eq_of_rank_eq heq] at this
          exact Nat.lt_irrefl _ this
        · exact hsorted.1 g hg

namespace Simulates

variable {α κ : Type} [DecidableEq κ] {key : α → κ} {q : HeapQueue α κ} {l : QueueLedger α}
  {s : AsyncPriorityQueue α}

theorem contains_iff (hq : Faithful key q l) (hs : Simulates q s) (item : κ) :
    s.contains key item = (q.heap.reverse.get? item).isSome := by
  rw [Bool.eq_iff_iff, hq.reverse.mem_keys_iff]
  simp [AsyncPriorityQueue.contains, hs.perm.mem_iff]

theorem push (hq : Faithful key q l) (hs : Simulates q s) (item : α)
    (priority timestamp : Option Int) (now : Int) :
    (q.push key item priority timestamp now).1 =
        .pushed (s.push key item priority timestamp now).1 ∧
      Simulates (q.push key item priority timestamp now).2
        (s.push key item priority timestamp now).2 := by
  have hcontents := (hq.push_faithful item priority timestamp now).contents
  have hcontains := contains_iff hq hs (key item)
  unfold HeapQueue.push at hcontents ⊢
  unfold AsyncPriorityQueue.push
  rw [hcontains]
  split
  case isTrue => exact ⟨rfl, hs⟩
  case isFalse hfresh =>
    rw [if_neg hfresh] at hcontents
    have hstamp : stampAfter s.lastDefaultTimestamp timestamp now =
        stampAfter q.lastDefaultTimestamp timestamp now := by
      rw [← hs.lastDefault]
    have hnext := hs.nextIndex
    have hlast := hs.lastDefault
    refine ⟨rfl, ⟨?_, ?_, ?_, ?_⟩⟩
    · refine AsyncPriorityQueue.sorted_insertEntry hs.sorted fun f hf => ?_
      have hbound := hq.indexBound f (hq.mem_iff.1 (hs.perm.mem_iff.1 hf))
      rwa [hnext, hq.nextIndex]
    · refine (AsyncPriorityQueue.insertEntry_perm _ _).trans ?_
      refine List.Perm.trans ?_ hcontents.symm
      simp only [QueueLedger.note, ← hq.lastDefault, ← hq.nextIndex, hstamp, hnext]
      exact (List.perm_append_singleton _ _).symm.trans
        ((hs.perm.trans hq.contents).append_right _)
    · simp [hnext]
    · simp [hlast]

/-- A list without its entry of an item. -/
theorem strike {entries : List (QueueEntry α)} (hq : Faithful key q l) (hs : Simulates q s)
    {q' : HeapQueue α κ} {e : QueueEntry α} (hq' : Faithful key q' (l.strike key (key e.item)))
    (hnext : q'.nextIndex = q.nextIndex) (hlast : q'.lastDefaultTimestamp = q.lastDefaultTimestamp)
    (hentries : s.entries.Perm (e :: entries)) (hsub : entries.Sublist s.entries) :
    Simulates q' { s with entries := entries } := by
  refine ⟨hs.sorted.sublist hsub, ?_, hs.nextIndex.trans hnext.symm, hs.lastDefault.trans hlast.symm⟩
  have hnodup : ((e :: entries).map (key ·.item)).Nodup :=
    ((hentries.symm.trans hs.perm).map _).nodup_iff.2 hq.noItemTwice
  rw [List.map_cons, List.nodup_cons] at hnodup
  have hfilter : (e :: entries).filter (fun f => key f.item ≠ key e.item) = entries := by
    rw [List.filter_cons_of_neg (by simp), List.filter_eq_self]
    intro f hf
    have hne : key f.item ≠ key e.item := fun hkey =>
      hnodup.1 (List.mem_map.2 ⟨f, hf, hkey⟩)
    simpa using hne
  have hperm : l.entries.Perm (e :: entries) := (hs.perm.trans hq.contents).symm.trans hentries
  refine List.Perm.trans ?_ hq'.contents.symm
  show entries.Perm (l.entries.filter fun f => key f.item ≠ key e.item)
  rw [← hfilter]
  simpa using (hperm.filter fun f => decide (key f.item ≠ key e.item)).symm

theorem pop (hq : Faithful key q l) (hs : Simulates q s) (wait : Bool) {e : QueueEntry α}
    {s' : AsyncPriorityQueue α} (hpop : s.pop = some (e, s')) :
    (q.pop key wait).1 = .entry e ∧ Simulates (q.pop key wait).2 s' := by
  cases hentries : s.entries with
  | nil => simp [AsyncPriorityQueue.pop, hentries] at hpop
  | cons f rest =>
      simp only [AsyncPriorityQueue.pop, hentries, Option.some.injEq, Prod.mk.injEq] at hpop
      obtain ⟨rfl, rfl⟩ := hpop
      have hmem : f ∈ l.entries := (hs.perm.trans hq.contents).mem_iff.1 (by simp [hentries])
      have hanswer := hq.top_answer wait
      rcases hanswer with ⟨hempty, -⟩ | ⟨e, hleast, htop⟩
      · simp [hempty] at hmem
      -- The first entry of the list is the least one too.
      have heq : f = e := by
        by_contra hne
        have hef := hleast.2 f hmem hne
        have hmem' : e ∈ f :: rest :=
          hentries ▸ (hs.perm.trans hq.contents).mem_iff.2 hleast.1
        have hsorted := hs.sorted
        rw [hentries, List.pairwise_cons] at hsorted
        have hfe := hsorted.1 e ((List.mem_cons.1 hmem').resolve_left (Ne.symm hne))
        rw [QueueEntry.before_iff] at hef hfe
        exact lt_asymm hef hfe
      subst heq
      have hfst : (q.pop key wait).1 = .entry f := by rw [HeapQueue.pop_fst, htop]
      refine ⟨hfst, ?_⟩
      have hq' := hq.pop_faithful wait
      rw [hfst] at hq'
      refine hs.strike hq hq' ?_ ?_ (by rw [hentries])
        (by rw [hentries]; exact List.sublist_cons_self f rest)
      · rw [hq'.nextIndex, hq.nextIndex]
        rfl
      · rw [hq'.lastDefault, hq.lastDefault]
        rfl

theorem remove (hq : Faithful key q l) (hs : Simulates q s) (item : κ)
    {s' : AsyncPriorityQueue α} (hremove : s.remove key item = some s') :
    (∃ e, (q.remove key item).1 = .entry e) ∧ Simulates (q.remove key item).2 s' := by
  unfold AsyncPriorityQueue.remove at hremove
  split at hremove
  case isFalse => cases hremove
  case isTrue hcontains =>
    rw [Option.some.injEq] at hremove
    subst hremove
    obtain ⟨e, hmem, hkey⟩ : ∃ e ∈ l.entries, key e.item = item := by
      rw [contains_iff hq hs, hq.reverse.mem_keys_iff] at hcontains
      obtain ⟨e, he, hkey⟩ := hcontains
      exact ⟨e, hq.mem_iff.1 he, hkey⟩
    rcases hq.allows (.remove item) with ⟨habsent, -⟩ | ⟨f, hf, hfkey, hanswer⟩
    · exact absurd hkey (habsent e hmem)
    simp only [HeapQueue.call] at hanswer
    refine ⟨⟨f, hanswer⟩, ?_⟩
    have hq' := hq.remove_faithful item
    rw [hanswer, ← hfkey] at hq'
    have hfmem : f ∈ s.entries := (hs.perm.trans hq.contents).mem_iff.2 hf
    obtain ⟨g, before, after, -, hg, hsplit, herase⟩ :=
      List.exists_of_eraseP (p := fun e => decide (key e.item = item)) hfmem (by simpa using hfkey)
    have hgmem : g ∈ l.entries := (hs.perm.trans hq.contents).mem_iff.1 (by simp [hsplit])
    have hgf : g = f := hq.entry_of_key hgmem hf (by rw [hfkey]; simpa using hg)
    subst hgf
    rw [hfkey] at hq'
    subst hfkey
    refine hs.strike hq hq' ?_ ?_ ?_ (List.eraseP_sublist ..)
    · rw [hq'.nextIndex, hq.nextIndex]
      rfl
    · rw [hq'.lastDefault, hq.lastDefault]
      rfl
    · rw [herase, hsplit]
      exact List.perm_middle

end Simulates

end Io
end ContestManagement
