import ContestManagement.Io.PriorityHeap
import ContestManagement.Service.Operations

/-!
# The cumulative status of the queue

`EvaluationExecutor` of `cms/service/EvaluationService.py` keeps, next to its queue, one entry for
all the queued operations that differ in the testcase only, with their number.  Each enqueue,
dequeue and pop updates it on its own.

After any calls the number recorded under a short key and a priority is that of the queue's entries
with them, and no update misses its entry.
-/

namespace ContestManagement
namespace Service

open Lib (Dict)
open Io (HeapQueue QueueEntry QueueLedger Faithful)

/-- The value of `ESOperation.type_`. -/
def OperationType.value : OperationType → String
  | .compilation => "compile"
  | .evaluation => "evaluate"
  | .userTestCompilation => "compile_test"
  | .userTestEvaluation => "evaluate_test"

/-- `short_key`. -/
def ESOperation.shortKey (op : ESOperation) : String × String × String :=
  (op.type.value, toString op.objectId, toString op.datasetId)

/-- The short key of an operation and the priority of its entry. -/
abbrev StatusKey : Type := (String × String × String) × Int

/-- The fields of an operation but for the testcase, and how many operations share them. -/
structure StatusItem where
  type : OperationType
  objectId : Nat
  datasetId : Nat
  archiveSandbox : Bool
  multiplicity : Int
  deriving DecidableEq, Repr

/-- A value of `queue_status_cumulative`. -/
structure StatusEntry where
  item : StatusItem
  priority : Int
  timestamp : Int
  deriving DecidableEq, Repr

/-- The key to which an entry of the status belongs. -/
def StatusEntry.key (entry : StatusEntry) : StatusKey :=
  ((entry.item.type.value, toString entry.item.objectId, toString entry.item.datasetId),
    entry.priority)

/-- The key under which an entry of the queue is counted. -/
def statusKey (e : QueueEntry ESOperation) : StatusKey := (e.item.shortKey, e.priority)

structure EvaluationExecutor where
  operationQueue : HeapQueue ESOperation ESOperation
  currentlyExecuting : List ESOperation
  queueStatusCumulative : Dict StatusKey StatusEntry

/-- A call of the executor; `executing` is what `execute` does to the list of operations. -/
inductive ExecutorCall
  | enqueue (item : ESOperation) (priority timestamp : Int)
  | dequeue (operation : ESOperation)
  | pop (wait : Bool)
  | executing (operations : List ESOperation)
  deriving DecidableEq

/-- What a call returns or raises. -/
inductive ExecutorAnswer
  | enqueued (success : Bool)
  | entry (e : QueueEntry ESOperation)
  | done
  | waits
  | lookupError
  | keyError
  deriving DecidableEq

def StatusEntry.plus (entry : StatusEntry) (n : Int) : StatusEntry :=
  { entry with item := { entry.item with multiplicity := entry.item.multiplicity + n } }

/-- The second half of `enqueue`: add the item to the status. -/
def addToCumulativeStatus (status : Dict StatusKey StatusEntry) (item : ESOperation)
    (priority timestamp : Int) : Dict StatusKey StatusEntry :=
  let key := (item.shortKey, priority)
  match status.get? key with
  | some entry => status.set key (entry.plus 1)
  | none =>
      status.set key
        { item :=
            { type := item.type
              objectId := item.objectId
              datasetId := item.datasetId
              archiveSandbox := item.archiveSandbox
              multiplicity := 1 }
          priority := priority
          timestamp := timestamp }

/-- `_remove_from_cumulative_status`; `none` when it raises `KeyError`. -/
def removeFromCumulativeStatus (status : Dict StatusKey StatusEntry)
    (e : QueueEntry ESOperation) : Option (Dict StatusKey StatusEntry) :=
  match status.get? (statusKey e) with
  | none => none
  | some entry =>
      if (entry.plus (-1)).item.multiplicity = 0 then some (status.erase (statusKey e))
      else some (status.set (statusKey e) (entry.plus (-1)))

namespace EvaluationExecutor

def new : EvaluationExecutor := ⟨HeapQueue.new, [], Dict.empty⟩

variable (x : EvaluationExecutor)

def enqueue (item : ESOperation) (priority timestamp : Int) : ExecutorAnswer × EvaluationExecutor :=
  match x.operationQueue.push id item (some priority) (some timestamp) timestamp with
  | (.pushed true, queue) =>
      (.enqueued true,
        { x with
          operationQueue := queue
          queueStatusCumulative :=
            addToCumulativeStatus x.queueStatusCumulative item priority timestamp })
  | (_, queue) => (.enqueued false, { x with operationQueue := queue })

/-- The handler of `KeyError` in `dequeue`. -/
def dropExecuting (operation : ESOperation) : ExecutorAnswer × EvaluationExecutor :=
  if operation ∈ x.currentlyExecuting then
    (.done, { x with currentlyExecuting := x.currentlyExecuting.erase operation })
  else (.keyError, x)

def dequeue (operation : ESOperation) : ExecutorAnswer × EvaluationExecutor :=
  match x.operationQueue.remove id operation with
  | (.entry e, queue) =>
      match removeFromCumulativeStatus x.queueStatusCumulative e with
      | some status =>
          (.done, { x with operationQueue := queue, queueStatusCumulative := status })
      | none => { x with operationQueue := queue }.dropExecuting operation
  | (.keyError, queue) => { x with operationQueue := queue }.dropExecuting operation
  | (_, queue) => (.lookupError, { x with operationQueue := queue })

/-- `_pop`. -/
def pop (wait : Bool) : ExecutorAnswer × EvaluationExecutor :=
  match x.operationQueue.pop id wait with
  | (.entry e, queue) =>
      match removeFromCumulativeStatus x.queueStatusCumulative e with
      | some status =>
          (.entry e, { x with operationQueue := queue, queueStatusCumulative := status })
      | none => (.keyError, { x with operationQueue := queue })
  | (.waits, queue) => (.waits, { x with operationQueue := queue })
  | (_, queue) => (.lookupError, { x with operationQueue := queue })

def call (x : EvaluationExecutor) : ExecutorCall → ExecutorAnswer × EvaluationExecutor
  | .enqueue item priority timestamp => x.enqueue item priority timestamp
  | .dequeue operation => x.dequeue operation
  | .pop wait => x.pop wait
  | .executing operations => (.done, { x with currentlyExecuting := operations })

def run (x : EvaluationExecutor) (calls : List ExecutorCall) : EvaluationExecutor :=
  calls.foldl (fun x call => (x.call call).2) x

/-- The entries of the queue. -/
def queued : List (QueueEntry ESOperation) := x.operationQueue.heap.queue

end EvaluationExecutor

/-! ## Counting entries -/

/-- How many entries of a queue are counted under a key. -/
def counted (key : StatusKey) (entries : List (QueueEntry ESOperation)) : Nat :=
  entries.countP fun e => statusKey e = key

theorem counted_cons (key : StatusKey) (e : QueueEntry ESOperation)
    (entries : List (QueueEntry ESOperation)) :
    counted key (e :: entries) = counted key entries + if statusKey e = key then 1 else 0 := by
  unfold counted
  rw [List.countP_cons]
  by_cases h : statusKey e = key
  · simp [h]
  · simp [h]

theorem counted_perm {entries entries' : List (QueueEntry ESOperation)}
    (h : entries.Perm entries') (key : StatusKey) : counted key entries = counted key entries' :=
  h.countP_eq _

/-- The status has an entry for the keys that are counted, with their number. -/
def Tallied (entries : List (QueueEntry ESOperation)) (status : Dict StatusKey StatusEntry) :
    Prop :=
  ∀ key, (status.get? key = none ∧ counted key entries = 0) ∨
    ∃ entry, status.get? key = some entry ∧ entry.key = key ∧
      entry.item.multiplicity = counted key entries ∧ counted key entries ≠ 0

variable {entries : List (QueueEntry ESOperation)} {status : Dict StatusKey StatusEntry}
  {e : QueueEntry ESOperation}

theorem Tallied.perm {entries' : List (QueueEntry ESOperation)} (h : Tallied entries status)
    (hperm : entries.Perm entries') : Tallied entries' status := by
  intro key
  rw [← counted_perm hperm key]
  exact h key

@[simp] theorem key_plus (entry : StatusEntry) (n : Int) : (entry.plus n).key = entry.key := rfl

@[simp] theorem multiplicity_plus (entry : StatusEntry) (n : Int) :
    (entry.plus n).item.multiplicity = entry.item.multiplicity + n := rfl

/-- Adding an item counts its entry. -/
theorem Tallied.add (h : Tallied entries status) (timestamp : Int) :
    Tallied (e :: entries) (addToCumulativeStatus status e.item e.priority timestamp) := by
  intro key
  rw [counted_cons]
  unfold addToCumulativeStatus
  by_cases hkey : statusKey e = key
  · right
    subst hkey
    rw [if_pos rfl]
    rcases h (statusKey e) with ⟨hnone, hzero⟩ | ⟨entry, hsome, hentry, hmultiplicity, hne⟩
    · dsimp only
      rw [show (e.item.shortKey, e.priority) = statusKey e from rfl, hnone]
      refine ⟨_, (Dict.get?_set _ _ _ _).trans (if_pos rfl), rfl, ?_, by omega⟩
      dsimp only
      omega
    · dsimp only
      rw [show (e.item.shortKey, e.priority) = statusKey e from rfl, hsome]
      refine ⟨_, (Dict.get?_set _ _ _ _).trans (if_pos rfl), hentry, ?_, by omega⟩
      rw [multiplicity_plus]
      omega
  · have hother : key ≠ (e.item.shortKey, e.priority) := Ne.symm hkey
    rw [if_neg hkey]
    dsimp only
    split
    · rw [Dict.get?_set, if_neg hother]
      exact h key
    · rw [Dict.get?_set, if_neg hother]
      exact h key

/-- Removing an entry that is counted finds it, and counts it no more. -/
theorem Tallied.remove (h : Tallied (e :: entries) status) :
    ∃ after, removeFromCumulativeStatus status e = some after ∧ Tallied entries after := by
  have hself := counted_cons (statusKey e) e entries
  rw [if_pos rfl] at hself
  unfold removeFromCumulativeStatus
  rcases h (statusKey e) with ⟨-, hzero⟩ | ⟨entry, hsome, hentry, hmultiplicity, -⟩
  · omega
  · rw [hsome]
    dsimp only
    rw [multiplicity_plus]
    have hothers : ∀ key, statusKey e ≠ key → counted key (e :: entries) = counted key entries :=
      fun key hne => by rw [counted_cons, if_neg hne, Nat.add_zero]
    by_cases hlast : entry.item.multiplicity + -1 = 0
    · refine ⟨_, if_pos hlast, fun key => ?_⟩
      by_cases hkey : statusKey e = key
      · left
        rw [← hkey, Dict.get?_erase, if_pos rfl]
        exact ⟨rfl, by omega⟩
      · rw [Dict.get?_erase, if_neg (Ne.symm hkey), ← hothers key hkey]
        exact h key
    · refine ⟨_, if_neg hlast, fun key => ?_⟩
      by_cases hkey : statusKey e = key
      · right
        subst hkey
        refine ⟨_, (Dict.get?_set _ _ _ _).trans (if_pos rfl), hentry, ?_, by omega⟩
        rw [multiplicity_plus]
        omega
      · rw [Dict.get?_set, if_neg (Ne.symm hkey), ← hothers key hkey]
        exact h key

/-! ## Calls and runs -/

/-- The queue holds the entries of a ledger, and the status counts them. -/
structure Exact (x : EvaluationExecutor) (l : QueueLedger ESOperation) : Prop where
  faithful : Faithful id x.operationQueue l
  tallied : Tallied l.entries x.queueStatusCumulative

theorem exact_new : Exact EvaluationExecutor.new QueueLedger.empty where
  faithful := Faithful.new
  tallied _ := Or.inl ⟨rfl, rfl⟩

/-- An entry of the ledger and what is left without it. -/
theorem strike_perm {q : HeapQueue ESOperation ESOperation} {l : QueueLedger ESOperation}
    (hq : Faithful id q l) (he : e ∈ l.entries) :
    l.entries.Perm (e :: (l.strike id e.item).entries) := by
  have hnodup : l.entries.Nodup := hq.indices.imp fun hlt heq => absurd hlt (by simp [heq])
  have hstrike : (l.strike id e.item).entries.Nodup := hnodup.filter _
  refine (List.perm_ext_iff_of_nodup hnodup (List.nodup_cons.2 ⟨?_, hstrike⟩)).2 fun f => ?_
  · simp [QueueLedger.strike]
  · simp only [QueueLedger.strike, List.mem_cons, List.mem_filter, decide_eq_true_eq, id]
    constructor
    · intro hf
      by_cases hitem : f.item = e.item
      · exact Or.inl (hq.entry_of_key hf he hitem)
      · exact Or.inr ⟨hf, hitem⟩
    · rintro (heq | ⟨hf, -⟩)
      · rw [heq]
        exact he
      · exact hf

section Calls

variable {x : EvaluationExecutor} {l : QueueLedger ESOperation}

theorem Exact.tallied_queued (h : Exact x l) : Tallied x.queued x.queueStatusCumulative :=
  h.tallied.perm h.faithful.contents.symm

theorem Exact.enqueue (h : Exact x l) (item : ESOperation) (priority timestamp : Int) :
    ∃ l', Exact (x.enqueue item priority timestamp).2 l' := by
  have hallows : (x.operationQueue.push id item (some priority) (some timestamp) timestamp).1 =
      .pushed (decide (∀ e ∈ l.entries, id e.item ≠ id item)) :=
    h.faithful.allows (.push item (some priority) (some timestamp) timestamp)
  have hpush := h.faithful.push_faithful item (some priority) (some timestamp) timestamp
  unfold EvaluationExecutor.enqueue
  cases hcall : x.operationQueue.push id item (some priority) (some timestamp) timestamp with
  | mk answer queue =>
      rw [hcall] at hallows hpush
      dsimp only at hallows
      rw [hallows] at hpush ⊢
      cases hnew : decide (∀ e ∈ l.entries, id e.item ≠ id item) with
      | false =>
          rw [hnew] at hpush
          exact ⟨l, hpush, h.tallied⟩
      | true =>
          rw [hnew] at hpush
          refine ⟨_, hpush, ?_⟩
          have hadd : Tallied (⟨item, priority, timestamp, l.accepted⟩ :: l.entries)
              (addToCumulativeStatus x.queueStatusCumulative item priority timestamp) :=
            h.tallied.add timestamp
          exact hadd.perm (List.perm_append_singleton _ _).symm

/-- The entry that the queue gives out leaves the status too. -/
theorem Exact.give_out (h : Exact x l) {e : QueueEntry ESOperation} (he : e ∈ l.entries)
    {queue : HeapQueue ESOperation ESOperation}
    (hqueue : Faithful id queue (l.strike id e.item)) :
    ∃ status, removeFromCumulativeStatus x.queueStatusCumulative e = some status ∧
      Exact { x with operationQueue := queue, queueStatusCumulative := status }
        (l.strike id e.item) := by
  obtain ⟨status, hremove, htallied⟩ := (h.tallied.perm (strike_perm h.faithful he)).remove
  exact ⟨status, hremove, hqueue, htallied⟩

theorem Exact.dropExecuting (h : Exact x l) (operation : ESOperation) :
    Exact (x.dropExecuting operation).2 l ∧
      ((x.dropExecuting operation).1 = .keyError → operation ∉ x.currentlyExecuting) := by
  unfold EvaluationExecutor.dropExecuting
  by_cases hmem : operation ∈ x.currentlyExecuting
  · rw [if_pos hmem]
    exact ⟨⟨h.faithful, h.tallied⟩, fun hanswer => by cases hanswer⟩
  · rw [if_neg hmem]
    exact ⟨h, fun _ => hmem⟩

theorem Exact.dequeue (h : Exact x l) (operation : ESOperation) :
    (∃ l', Exact (x.dequeue operation).2 l') ∧
      ((x.dequeue operation).1 = .keyError →
        (∀ e ∈ x.queued, e.item ≠ operation) ∧ operation ∉ x.currentlyExecuting) := by
  have hallows : ((∀ e ∈ l.entries, id e.item ≠ operation) ∧
        (x.operationQueue.remove id operation).1 = .keyError) ∨
      ∃ e ∈ l.entries, id e.item = operation ∧
        (x.operationQueue.remove id operation).1 = .entry e :=
    h.faithful.allows (.remove operation)
  have hremove := h.faithful.remove_faithful operation
  unfold EvaluationExecutor.dequeue
  cases hcall : x.operationQueue.remove id operation with
  | mk answer queue =>
      rw [hcall] at hallows hremove
      rcases hallows with ⟨habsent, hanswer⟩ | ⟨e, he, hitem, hanswer⟩
      · dsimp only at hanswer
        rw [hanswer] at hremove ⊢
        have hsame : Exact { x with operationQueue := queue } l := ⟨hremove, h.tallied⟩
        have hdrop := hsame.dropExecuting operation
        refine ⟨⟨l, hdrop.1⟩, fun hraised => ⟨fun e he => ?_, hdrop.2 hraised⟩⟩
        exact habsent e (h.faithful.mem_iff.1 he)
      · dsimp only at hanswer
        rw [hanswer, ← hitem] at hremove
        obtain ⟨status, hstatus, hexact⟩ := h.give_out he hremove
        rw [hanswer]
        dsimp only
        rw [hstatus]
        exact ⟨⟨_, hexact⟩, fun hraised => by cases hraised⟩

theorem Exact.pop (h : Exact x l) (wait : Bool) :
    (∃ l', Exact (x.pop wait).2 l') ∧ (x.pop wait).1 ≠ .keyError := by
  have hallows : (l.entries = [] ∧ (x.operationQueue.pop id wait).1 =
        if wait then .waits else .lookupError) ∨
      ∃ e, l.IsLeast e ∧ (x.operationQueue.pop id wait).1 = .entry e :=
    h.faithful.allows (.pop wait)
  have hpop := h.faithful.pop_faithful wait
  unfold EvaluationExecutor.pop
  cases hcall : x.operationQueue.pop id wait with
  | mk answer queue =>
      rw [hcall] at hallows hpop
      rcases hallows with ⟨-, hanswer⟩ | ⟨e, hleast, hanswer⟩
      · dsimp only at hanswer
        rw [hanswer] at hpop ⊢
        cases wait with
        | false => exact ⟨⟨l, hpop, h.tallied⟩, by simp⟩
        | true => exact ⟨⟨l, hpop, h.tallied⟩, by simp⟩
      · dsimp only at hanswer
        rw [hanswer] at hpop
        obtain ⟨status, hstatus, hexact⟩ := h.give_out hleast.1 hpop
        rw [hanswer]
        dsimp only
        rw [hstatus]
        exact ⟨⟨_, hexact⟩, by simp⟩

theorem Exact.call (h : Exact x l) (call : ExecutorCall) :
    ∃ l', Exact (x.call call).2 l' := by
  cases call with
  | enqueue item priority timestamp => exact h.enqueue item priority timestamp
  | dequeue operation => exact (h.dequeue operation).1
  | pop wait => exact (h.pop wait).1
  | executing operations => exact ⟨l, h.faithful, h.tallied⟩

theorem exact_run (calls : List ExecutorCall) : ∃ l, Exact (EvaluationExecutor.new.run calls) l := by
  unfold EvaluationExecutor.run
  induction calls using List.reverseRecOn with
  | nil => exact ⟨_, exact_new⟩
  | append_singleton calls call ih =>
      obtain ⟨l, hl⟩ := ih
      rw [List.foldl_concat]
      exact hl.call call

end Calls

/-- The multiplicity recorded under a key, zero if there is none. -/
def multiplicity (status : Dict StatusKey StatusEntry) (key : StatusKey) : Int :=
  (status.get? key).elim 0 (·.item.multiplicity)

/-- After any calls the status is exact: the multiplicity under a key is the number of entries of
the queue with its short key and priority, the keys are those for which it is not zero, the item
recorded under a key has this key, and no update raises: removing any queued entry from the status
succeeds, a pop raises no `KeyError`, and a dequeue only does for an operation that is neither
queued nor about to be executed. -/
theorem cumulative_status_exact (calls : List ExecutorCall) :
    (∀ key, multiplicity (EvaluationExecutor.new.run calls).queueStatusCumulative key =
      counted key (EvaluationExecutor.new.run calls).queued) ∧
    (∀ key, key ∈ (EvaluationExecutor.new.run calls).queueStatusCumulative.keys ↔
      counted key (EvaluationExecutor.new.run calls).queued ≠ 0) ∧
    (∀ key entry, (EvaluationExecutor.new.run calls).queueStatusCumulative.get? key = some entry →
      entry.key = key) ∧
    (∀ e ∈ (EvaluationExecutor.new.run calls).queued, (removeFromCumulativeStatus
      (EvaluationExecutor.new.run calls).queueStatusCumulative e).isSome) ∧
    (∀ wait, ((EvaluationExecutor.new.run calls).pop wait).1 ≠ .keyError) ∧
    ∀ operation, ((EvaluationExecutor.new.run calls).dequeue operation).1 = .keyError →
      (∀ e ∈ (EvaluationExecutor.new.run calls).queued, e.item ≠ operation) ∧
        operation ∉ (EvaluationExecutor.new.run calls).currentlyExecuting := by
  obtain ⟨l, hl⟩ := exact_run calls
  have htallied := hl.tallied_queued
  refine ⟨fun key => ?_, fun key => ?_, fun key entry hentry => ?_, fun e he => ?_,
    fun wait => (hl.pop wait).2, fun operation => (hl.dequeue operation).2⟩
  · unfold multiplicity
    rcases htallied key with ⟨hnone, hzero⟩ | ⟨entry, hsome, -, hmultiplicity, -⟩
    · rw [hnone, hzero]
      rfl
    · rw [hsome]
      exact hmultiplicity
  · rw [Dict.mem_keys_iff]
    rcases htallied key with ⟨hnone, hzero⟩ | ⟨entry, hsome, -, -, hne⟩
    · simp [hnone, hzero]
    · simp [hsome, hne]
  · rcases htallied key with ⟨hnone, -⟩ | ⟨recorded, hsome, hkey, -, -⟩
    · rw [hnone] at hentry
      cases hentry
    · rw [hsome] at hentry
      rw [← Option.some.inj hentry]
      exact hkey
  · have hmem := hl.faithful.mem_iff.1 he
    obtain ⟨status, hstatus, -⟩ := (hl.tallied.perm (strike_perm hl.faithful hmem)).remove
    rw [hstatus]
    rfl

end Service
end ContestManagement
