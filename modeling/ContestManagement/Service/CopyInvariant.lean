import ContestManagement.Service.CopyMoves

/-!
# The invariant of the copies

Every call of EvaluationService moves the ledger of every operation by one of the
moves that keep a single live copy.  This module states the invariant, and treats
the recoveries, the executor, the answers and the callbacks of the loop.
-/

namespace ContestManagement
namespace Service

open Io Lib

/-- The name of an action in `_pending_operations`. -/
def actionName : Act Nat → PendingAction
  | .put _ => .push
  | .remove => .dequeue

/-- What `_pending_operations` records for the pending actions of an operation: the
last one, and how many they are. -/
def summary (acts : List (Act Nat)) : Option (PendingAction × Nat) :=
  acts.getLast?.map fun act => (actionName act, acts.length)

theorem summary_concat (acts : List (Act Nat)) (act : Act Nat) :
    summary (acts ++ [act]) = some (actionName act, acts.length + 1) := by
  simp [summary]

/-- `_clear_pending_one` drops the first action from the summary. -/
theorem summary_tail (act : Act Nat) (rest : List (Act Nat)) :
    (match summary (act :: rest) with
      | some (action, count) => if count ≤ 1 then none else some (action, count - 1)
      | none => none) = summary rest := by
  cases rest with
  | nil => simp [summary]
  | cons next rest =>
      have hlast : (act :: next :: rest).getLast? = (next :: rest).getLast? :=
        List.getLast?_cons_cons
      unfold summary
      rw [hlast]
      cases hcase : (next :: rest).getLast? with
      | none => simp at hcase
      | some last => simp

theorem summary_eq_none {acts : List (Act Nat)} : summary acts = none ↔ acts = [] := by
  simp [summary]

/-- Nothing survives when the last recorded action is a dequeue. -/
theorem survivors_of_summary_dequeue {acts : List (Act Nat)} {count : Nat}
    (h : summary acts = some (.dequeue, count)) (held : Multiset Nat) :
    Act.survivors held acts = 0 := by
  rw [summary, Option.map_eq_some_iff] at h
  obtain ⟨last, hlast, hpair⟩ := h
  cases last with
  | put copy => simp [actionName] at hpair
  | remove =>
      obtain ⟨init, rfl⟩ := List.getLast?_eq_some_iff.1 hlast
      exact Act.survivors_concat_remove held init

namespace EvaluationService

/-- The part of the invariant about sections and loop actions. -/
structure Scheduled (s : EvaluationService) : Prop where
  pending : ∀ op, s.pendingOperations op = summary (s.pendingActs op)
  /-- Dequeues are handed over at once: only pushes wait for the end of the section. -/
  buffer : ∀ callback ∈ s.loopActions, ∃ item priority timestamp,
    callback = .push item priority timestamp
  unlocked : s.lockedBy = none → s.loopActions = [] ∧ s.dequeuedInSection = []
  /-- An invalidation enqueues nothing before it has dequeued everything. -/
  dequeuing : ∀ todo operations, s.lockedBy = some (.dequeuing todo operations) →
    s.loopActions = []

/-- The invariant of the service. -/
structure Inv (s : EvaluationService) : Prop where
  assigned : s.Assigned
  scheduled : s.Scheduled
  single : ∀ op, (s.ledger op).Single
  /-- What the section dequeued does not survive the actions handed to the loop. -/
  cleared : ∀ op ∈ s.dequeuedInSection, (s.ledger op).Cleared

/-- The ledger of an operation moves, and a new copy is really new. -/
def Moves (s t : EvaluationService) (op : ESOperation) : Prop :=
  Ledger.Move (fun copy => s.nextCopy ≤ copy) (s.ledger op) (t.ledger op)

/-- What every call does. -/
structure Keeps (s t : EvaluationService) : Prop where
  inv : t.Inv
  moves : ∀ op, s.Moves t op
  nextCopy_le : s.nextCopy ≤ t.nextCopy

/-- The rule that every call uses. -/
theorem Inv.of_moves {s t : EvaluationService} (h : s.Inv) (hassigned : t.Assigned)
    (hscheduled : t.Scheduled) (hmoves : ∀ op, s.Moves t op) (hnext : s.nextCopy ≤ t.nextCopy)
    (hcleared : ∀ op ∈ t.dequeuedInSection, (t.ledger op).Cleared ∨
      (op ∈ s.dequeuedInSection ∧
        (actsOn op t.loopActions = [] → actsOn op s.loopActions = []))) : Keeps s t where
  inv := by
    refine ⟨hassigned, hscheduled, fun op => (h.single op).move (hmoves op), ?_⟩
    intro op hop
    rcases hcleared op hop with hnew | ⟨hold, hbuffered⟩
    · exact hnew
    · exact (h.cleared op hold).move (hmoves op) hbuffered
  moves := hmoves
  nextCopy_le := hnext

/-- A call that leaves the loop and the sections alone. -/
theorem Inv.of_quiet {s t : EvaluationService} (h : s.Inv) (hassigned : t.Assigned)
    (hmoves : ∀ op, s.Moves t op)
    (hready : t.ready = s.ready) (hbuffer : t.loopActions = s.loopActions)
    (hpending : t.pendingOperations = s.pendingOperations)
    (hdequeued : t.dequeuedInSection = s.dequeuedInSection) (hlocked : t.lockedBy = s.lockedBy)
    (hnext : t.nextCopy = s.nextCopy) : Keeps s t := by
  refine h.of_moves hassigned ⟨?_, ?_, ?_, ?_⟩ hmoves (le_of_eq hnext.symm) ?_
  · intro op
    rw [pendingActs, hpending, hready, hbuffer]
    exact h.scheduled.pending op
  · rw [hbuffer]
    exact h.scheduled.buffer
  · rw [hlocked, hbuffer, hdequeued]
    exact h.scheduled.unlocked
  · rw [hlocked, hbuffer]
    exact h.scheduled.dequeuing
  · intro op hop
    rw [hdequeued] at hop
    rw [hbuffer]
    exact .inr ⟨hop, fun hnil => hnil⟩

/-- The ledger as its four parts. -/
theorem move_lose {s t : EvaluationService} {op : ESOperation}
    (hheld : (t.ledger op).held ≤ (s.ledger op).held)
    (hcached : (t.ledger op).cached ≤ (s.ledger op).cached)
    (hready : actsOn op t.ready = actsOn op s.ready)
    (hbuffer : actsOn op t.loopActions = actsOn op s.loopActions) :
    s.Moves t op := by
  have heq : t.ledger op = { s.ledger op with
      held := (t.ledger op).held, cached := (t.ledger op).cached } := by
    simp only [ledger, hready, hbuffer]
  unfold Moves
  rw [heq]
  exact Ledger.Move.lose hheld hcached

/-! ### Recoveries and other calls of the pool -/

theorem Inv.shrink {s : EvaluationService} (h : s.Inv) {q : WorkerPool ESOperation}
    (hq : Shrinks s.pool q) : Keeps s { s with pool := q } := by
  refine h.of_quiet (h.assigned.shrink hq) ?_ rfl rfl rfl rfl rfl rfl
  intro op
  exact move_lose (held_shrink hq op) le_rfl rfl rfl

/-! ### The executor -/

theorem Inv.pop {s t : EvaluationService} (h : s.Inv) (hstep : s.pop = some t) : Keeps s t := by
  unfold EvaluationService.pop at hstep
  by_cases hcond : s.executing = [] ∧ s.queue.entries ≠ []
  · rw [if_pos hcond, Option.some.injEq] at hstep
    subst hstep
    have hassigned := h.assigned
    refine h.of_quiet ⟨hassigned.sound, hassigned.shards_nodup, hassigned.holder,
      hassigned.task, hassigned.ids_nodup, hassigned.ids_le, hassigned.starts_le,
      hassigned.ordered⟩ ?_ rfl rfl rfl rfl rfl rfl
    intro op
    refine move_lose (le_of_eq ?_) le_rfl rfl rfl
    -- The batch and the rest of the queue make up the queue.
    have hsplit : copiesOf op (s.queue.entries.map QueueEntry.item) =
        copiesOf op ((s.queue.entries.take s.batchSize).map QueueEntry.item) ++
          copiesOf op ((s.queue.entries.drop s.batchSize).map QueueEntry.item) := by
      rw [← copiesOf_append, ← List.map_append, List.take_append_drop]
    simp only [ledger, copiesQueued, AsyncPriorityQueue.popMany, hsplit, hcond.1, copiesOf_nil,
      List.append_nil, ← Multiset.coe_add]
    rw [add_comm (copiesOf op ((s.queue.entries.drop s.batchSize).map QueueEntry.item) :
      Multiset Nat)]
    rfl
  · rw [if_neg hcond] at hstep
    cases hstep

/-- Two holders never hold copies of one operation. -/
theorem Inv.exclusive {s : EvaluationService} (h : s.Inv) (op : ESOperation) :
    (s.copiesQueued op).length + (copiesOf op s.executing).length +
      (s.copiesAssigned op).length ≤ 1 := by
  have hcard := (h.single op).exclusive.card_le
  simpa [ledger, add_assoc] using hcard

theorem length_copiesAt_le {s : EvaluationService} {shard : Nat}
    (hmem : shard ∈ s.pool.shards) (op : ESOperation) :
    (s.copiesAt shard op).length ≤ (s.copiesAssigned op).length := by
  unfold copiesAssigned
  generalize s.pool.shards = shards at hmem
  induction shards with
  | nil => cases hmem
  | cons first rest ih =>
      rw [List.flatMap_cons, List.length_append]
      rcases List.mem_cons.1 hmem with rfl | hrest
      · omega
      · have hle := ih hrest
        omega

theorem Assigned.mem_shards {s : EvaluationService} (h : s.Assigned) {shard : Nat}
    {sl : Slot ESOperation} (hslot : s.pool.roster.slot shard = some sl) :
    shard ∈ s.pool.shards := by
  apply h.sound.mem_shards
  rw [(Worker.slot_eq_some.1 hslot).1]
  rfl

theorem Inv.dispatch {s t : EvaluationService} (h : s.Inv) {pick : Nat} {now : Int}
    (hstep : s.dispatch pick now = some t) : Keeps s t := by
  unfold EvaluationService.dispatch at hstep
  by_cases hempty : s.executing = []
  · rw [if_pos hempty] at hstep
    cases hstep
  · rw [if_neg hempty] at hstep
    obtain ⟨answer, q, hq, hsound, hshards, hcases⟩ :=
      h.assigned.sound.acquireWorker (s.executing.map Queued.operation) pick now
    rw [hq] at hstep
    rcases hcases with ⟨rfl, hroster⟩ | ⟨shard, rfl, hmem, -, hfree, hroster⟩
    · simp only [Option.some.injEq] at hstep
      subst hstep
      apply h.shrink
      refine ⟨hsound, hshards, by rw [hroster], ?_, ?_⟩
      · intro shard sl' hslot
        rw [hroster] at hslot
        exact ⟨sl', hslot, rfl, rfl, List.Subset.refl _⟩
      · intro shard sl' op _ hholder
        rw [hroster]
        exact hholder
    · simp only [Option.some.injEq] at hstep
      change s.dispatched shard (s.pool.roster.last + 1) q = t at hstep
      subst hstep
      have hexcl : ∀ op other, s.copiesAt other op ≠ [] → copiesOf op s.executing = [] := by
        intro op other hlive
        obtain ⟨sl, hslot, -⟩ := copiesAt_ne_nil hlive
        have hle := length_copiesAt_le (h.assigned.mem_shards hslot) op
        have hpos := List.length_pos_iff.2 hlive
        have hcard := h.exclusive op
        exact List.length_eq_zero_iff.1 (by omega)
      refine h.of_moves (h.assigned.dispatched hsound hshards hroster hexcl) ⟨?_, ?_, ?_, ?_⟩
        ?_ le_rfl ?_
      · intro op
        have hacts : pendingActs (s.dispatched shard (s.pool.roster.last + 1) q) op =
            s.pendingActs op := by
          simp [pendingActs, EvaluationService.dispatched, actsOn]
        rw [hacts]
        exact h.scheduled.pending op
      · exact h.scheduled.buffer
      · exact h.scheduled.unlocked
      · exact h.scheduled.dequeuing
      · intro op
        refine move_lose (le_of_eq (h.assigned.held_dispatched hshards hmem hfree hroster op))
          le_rfl ?_ rfl
        simp [EvaluationService.dispatched, actsOn]
      · intro op hop
        exact .inr ⟨hop, fun hnil => hnil⟩

/-! ### Answers -/

theorem entries_add (cache : FlushingDict ESOperation Result) (op key : ESOperation)
    (value : Result) :
    (cacheCopies op (cache.add key value).entries : Multiset Nat) ≤
      cacheCopies op cache.entries + (if key = op then {value.copy} else 0) := by
  simp only [FlushingDict.entries, FlushingDict.add, cacheCopies_append, ← Multiset.coe_add]
  rw [add_right_comm]
  exact add_le_add (cacheCopies_setItem op key value cache.d) le_rfl

/-- Caching results changes the cache alone, and adds at most their copies. -/
theorem cacheResults_spec (s : EvaluationService) (toIgnore failed : List ESOperation)
    (items : List Queued) :
    ∃ cache ref, s.cacheResults toIgnore failed items =
        { s with resultCache := cache, nextRef := ref } ∧
      cache.flushing = s.resultCache.flushing ∧
      ∀ op, (cacheCopies op cache.entries : Multiset Nat) ≤
        cacheCopies op s.resultCache.entries +
          (if op ∈ toIgnore then [] else copiesOf op items : List Nat) := by
  induction items generalizing s with
  | nil => exact ⟨s.resultCache, s.nextRef, rfl, rfl, fun op => by simp⟩
  | cons item rest ih =>
      rw [cacheResults]
      by_cases hignored : item.operation ∈ toIgnore
      · rw [if_pos hignored]
        obtain ⟨cache, ref, heq, hflushing, hle⟩ := ih s
        refine ⟨cache, ref, heq, hflushing, ?_⟩
        intro op
        refine (hle op).trans (add_le_add le_rfl ?_)
        by_cases hop : op ∈ toIgnore
        · simp [hop]
        · have hne : item.operation ≠ op := fun heq => hop (heq ▸ hignored)
          simp [hop, copiesOf_cons, hne]
      · rw [if_neg hignored]
        obtain ⟨cache, ref, heq, hflushing, hle⟩ := ih { s with
          resultCache := s.resultCache.add item.operation
            ⟨s.nextRef, item.operation ∉ failed, item.copy⟩
          nextRef := s.nextRef + 1 }
        refine ⟨cache, ref, heq, hflushing, ?_⟩
        intro op
        refine (hle op).trans ?_
        have hadd := entries_add s.resultCache op item.operation
          ⟨s.nextRef, item.operation ∉ failed, item.copy⟩
        refine (add_le_add hadd le_rfl).trans (le_of_eq ?_)
        by_cases heq : item.operation = op
        · rw [heq] at hignored
          simp only [heq, if_true, hignored, if_false, copiesOf_cons, add_assoc,
            Multiset.singleton_add, Multiset.cons_coe]
        · simp [copiesOf_cons, heq]

/-- The copies of an operation in the job group of a task at its worker. -/
theorem Assigned.copiesAt_task {s : EvaluationService} (h : s.Assigned) {d : Dispatch}
    (hd : d ∈ s.dispatches) {sl : Slot ESOperation}
    (hslot : s.pool.roster.slot d.shard = some sl) (hid : sl.dispatch = d.id)
    (op : ESOperation) :
    s.copiesAt d.shard op = if op ∈ sl.toIgnore then [] else copiesOf op d.items := by
  have hrow : (s.pool.worker d.shard).slot = some sl := hslot
  simp only [copiesAt, hrow, hid, itemsOf_of_mem h.ids_nodup hd]

/-- No action is pending on an operation whose live copy is answered. -/
theorem Inv.pending_of_started {s : EvaluationService} (h : s.Inv) (hlocked : s.lockedBy = none)
    {d : Dispatch} (hd : d ∈ s.dispatches) (hstarted : d.started = true) {sl : Slot ESOperation}
    (hslot : s.pool.roster.slot d.shard = some sl) (hid : sl.dispatch = d.id)
    {op : ESOperation} (hlive : s.copiesAt d.shard op ≠ []) : (s.ledger op).pending = [] := by
  apply (h.single op).pending_of_held
  · intro hzero
    have hle := length_copiesAt_le (h.assigned.mem_shards hslot) op
    have hpos := List.length_pos_iff.2 hlive
    have hcard : (s.ledger op).held.card = 0 := by
      rw [hzero]
      rfl
    simp only [ledger, Multiset.coe_card, List.length_append] at hcard
    omega
  · have hbuffer := (h.scheduled.unlocked hlocked).1
    have hdequeue := (h.assigned.ordered d.shard sl op d hslot hd hid.symm hlive).1 hstarted
    simp only [Ledger.pending, ledger, hbuffer, actsOn_nil, List.append_nil, remove_mem_actsOn]
    exact hdequeue

theorem Inv.answer {s t : EvaluationService} (h : s.Inv) {id : Nat}
    {failed : Option (List ESOperation)} (hstep : s.answer id failed = some t) : Keeps s t := by
  obtain ⟨hlocked, d, hd, hid, hstarted, hcases⟩ := answer_cases h.assigned hstep
  rcases hcases with ⟨hnone, rfl⟩ | ⟨sl, q, hslot, hdispatch, hback, hcases⟩
  · refine h.of_quiet (h.assigned.dropTask hnone) ?_ rfl rfl rfl rfl rfl rfl
    intro op
    refine move_lose (le_of_eq ?_) le_rfl rfl rfl
    simp only [ledger, copiesAssigned, copiesAt_dropTask hnone]
    rfl
  · subst hid
    obtain ⟨hassigned, hsum⟩ := h.assigned.released hslot hdispatch hback
    obtain ⟨cache, ref, rfl, hcached⟩ : ∃ cache ref,
        t = { s with
          dispatches := s.dispatches.filter fun e => e.id ≠ d.id
          pool := q
          resultCache := cache
          nextRef := ref } ∧
        ∀ op, (cacheCopies op cache.entries : Multiset Nat) ≤
          s.copiesCached op + s.copiesAt d.shard op := by
      rcases hcases with rfl | ⟨failed, rfl⟩
      · exact ⟨s.resultCache, s.nextRef, rfl, fun op => Multiset.le_add_right _ _⟩
      · obtain ⟨cache, ref, heq, -, hle⟩ := cacheResults_spec { s with
          dispatches := s.dispatches.filter fun e => e.id ≠ d.id, pool := q }
          sl.toIgnore failed d.items
        refine ⟨cache, ref, heq, ?_⟩
        intro op
        rw [h.assigned.copiesAt_task hd hslot hdispatch]
        exact hle op
    refine h.of_quiet ⟨hassigned.sound, hassigned.shards_nodup, hassigned.holder,
      hassigned.task, hassigned.ids_nodup, hassigned.ids_le, hassigned.starts_le,
      hassigned.ordered⟩ ?_ rfl rfl rfl rfl rfl rfl
    intro op
    have hheld : (s.ledger op).held = (ledger { s with
        dispatches := s.dispatches.filter fun e => e.id ≠ d.id
        pool := q
        resultCache := cache
        nextRef := ref } op).held + s.copiesAt d.shard op := by
      simp only [ledger, ← Multiset.coe_add, ← hsum op, add_assoc]
      rfl
    by_cases hlive : s.copiesAt d.shard op = []
    · refine move_lose ?_ ?_ rfl rfl
      · rw [hheld]
        exact Multiset.le_add_right _ _
      · have hle := hcached op
        rw [hlive, Multiset.coe_nil, add_zero] at hle
        exact hle
    · have hpending := h.pending_of_started hlocked hd hstarted hslot hdispatch hlive
      refine Ledger.Move.answer hpending ?_ ?_
      · rw [hheld]
        exact Multiset.le_add_right _ _
      · rw [hheld, add_assoc]
        refine add_le_add le_rfl ?_
        rw [add_comm]
        exact hcached op

/-! ### The callbacks of the loop -/

theorem pendingOperations_clear {s : EvaluationService} (h : s.Scheduled) {op : ESOperation}
    {callback : Callback} {rest : List Callback} (hready : s.ready = callback :: rest)
    {act : Act Nat} (hact : actsOn op [callback] = [act])
    (hothers : ∀ other, other ≠ op → actsOn other [callback] = []) (other : ESOperation) :
    (s.clearPendingOne op).pendingOperations other =
      summary (actsOn other (rest ++ s.loopActions)) := by
  have hsplit : ∀ other, s.pendingActs other =
      actsOn other [callback] ++ actsOn other (rest ++ s.loopActions) := by
    intro other
    rw [pendingActs, hready, ← actsOn_append]
    rfl
  unfold clearPendingOne
  by_cases hop : other = op
  · subst hop
    simp only [Function.update_self, h.pending other, hsplit other, hact, List.singleton_append]
    exact summary_tail act _
  · simp only [Function.update_of_ne hop, h.pending other, hsplit other, hothers other hop,
      List.nil_append]

theorem copiesQueued_push {s : EvaluationService} (item : Queued) (priority timestamp : Int)
    (op : ESOperation) :
    (copiesOf op (((s.queue.push Queued.operation item (some priority) (some timestamp) 0).2
        ).entries.map QueueEntry.item) : Multiset Nat) ≤
      copiesOf op [item] + s.copiesQueued op := by
  unfold AsyncPriorityQueue.push
  by_cases hcontains : s.queue.contains Queued.operation item.operation = true
  · rw [if_pos hcontains]
    exact Multiset.le_add_left _ _
  · rw [if_neg hcontains]
    have hperm := (AsyncPriorityQueue.insertEntry_perm
      (⟨item, priority, timestamp, s.queue.nextIndex⟩ : QueueEntry Queued)
      s.queue.entries).map QueueEntry.item
    refine le_of_eq (Eq.trans (Multiset.coe_eq_coe.2 (copiesOf_perm hperm)) ?_)
    rw [Multiset.coe_add, copiesQueued, ← copiesOf_append]
    rfl

theorem Inv.run_push {s : EvaluationService} (h : s.Inv) {item : Queued}
    {priority timestamp : Int} {rest : List Callback}
    (hready : s.ready = .push item priority timestamp :: rest) :
    Keeps s ({ s with ready := rest }.runCallback (.push item priority timestamp)) := by
  have hassigned := h.assigned.tail hready
  have hact : actsOn item.operation [.push item priority timestamp] = [.put item.copy] := by
    simp [actsOn]
  have hothers : ∀ other, other ≠ item.operation →
      actsOn other [.push item priority timestamp] = [] := by
    intro other hother
    simp [actsOn, hother.symm]
  refine h.of_moves ⟨hassigned.sound, hassigned.shards_nodup, hassigned.holder,
    hassigned.task, hassigned.ids_nodup, hassigned.ids_le, hassigned.starts_le,
    hassigned.ordered⟩ ⟨?_, h.scheduled.buffer, h.scheduled.unlocked, h.scheduled.dequeuing⟩
    ?_ le_rfl (fun op hop => .inr ⟨hop, fun hnil => hnil⟩)
  · exact pendingOperations_clear h.scheduled hready hact hothers
  · intro op
    have hheld : (ledger ({ s with ready := rest }.runCallback
        (.push item priority timestamp)) op).held ≤ copiesOf op [item] + (s.ledger op).held := by
      have hqueued := copiesQueued_push (s := s) item priority timestamp op
      simp only [ledger, ← Multiset.coe_add, ← add_assoc]
      exact add_le_add (add_le_add hqueued le_rfl) le_rfl
    by_cases hop : op = item.operation
    · subst hop
      have hhanded : (s.ledger item.operation).handed =
          .put item.copy :: actsOn item.operation rest := by
        show actsOn item.operation s.ready = _
        rw [hready, ← List.singleton_append, actsOn_append, hact]
        rfl
      refine Ledger.Move.apply hhanded (hheld.trans (le_of_eq ?_))
      simp [copiesOf_cons, Act.apply]
    · refine move_lose ?_ le_rfl ?_ rfl
      · refine hheld.trans (le_of_eq ?_)
        simp [copiesOf_cons, Ne.symm hop]
      · show actsOn op rest = actsOn op s.ready
        rw [hready, ← List.singleton_append, actsOn_append, hothers op hop, List.nil_append]

theorem copiesOf_eraseP_self (op : ESOperation) (items : List Queued) :
    copiesOf op (items.eraseP fun item => item.operation = op) = (copiesOf op items).tail := by
  induction items with
  | nil => rfl
  | cons item rest ih =>
      by_cases hop : item.operation = op
      · simp [copiesOf_cons, hop]
      · simp [copiesOf_cons, hop, ih]

theorem copiesOf_eraseP_of_ne {op other : ESOperation} (hne : other ≠ op) (items : List Queued) :
    copiesOf other (items.eraseP fun item => item.operation = op) = copiesOf other items := by
  induction items with
  | nil => rfl
  | cons item rest ih =>
      by_cases hop : item.operation = op
      · have hother : op ≠ other := hne.symm
        simp [copiesOf_cons, hop, hother]
      · simp [copiesOf_cons, hop, ih]

theorem contains_eq_false {s : EvaluationService} {op : ESOperation}
    (h : s.queue.contains Queued.operation op = false) : s.copiesQueued op = [] := by
  rw [copiesQueued, copiesOf_eq_nil]
  intro item hitem
  obtain ⟨entry, hentry, rfl⟩ := List.mem_map.1 hitem
  simp only [AsyncPriorityQueue.contains, List.any_eq_false, decide_eq_true_eq] at h
  exact h entry hentry

/-- What `dequeue` leaves in the queue and in the executing list. -/
theorem dequeue_spec (s : EvaluationService) (op : ESOperation) :
    ∃ queue executing, s.dequeue op = { s with queue := queue, executing := executing } ∧
      (∀ other, other ≠ op →
        copiesOf other (queue.entries.map QueueEntry.item) = s.copiesQueued other ∧
          copiesOf other executing = copiesOf other s.executing) ∧
      ((s.copiesQueued op).length + (copiesOf op s.executing).length ≤ 1 →
        copiesOf op (queue.entries.map QueueEntry.item) = [] ∧ copiesOf op executing = []) := by
  unfold EvaluationService.dequeue AsyncPriorityQueue.remove
  cases hcontains : s.queue.contains Queued.operation op with
  | true =>
      have hmap : (s.queue.entries.eraseP fun e => e.item.operation = op).map QueueEntry.item =
          (s.queue.entries.map QueueEntry.item).eraseP fun item => item.operation = op := by
        rw [List.eraseP_map]
        rfl
      refine ⟨_, s.executing, rfl, ?_, ?_⟩
      · intro other hother
        simp only [hmap, copiesOf_eraseP_of_ne hother]
        exact ⟨rfl, trivial⟩
      · intro hle
        have hqueued : s.copiesQueued op ≠ [] := by
          intro hnil
          rw [copiesQueued, copiesOf_eq_nil] at hnil
          simp only [AsyncPriorityQueue.contains, List.any_eq_true, decide_eq_true_eq] at hcontains
          obtain ⟨entry, hentry, hop⟩ := hcontains
          exact hnil entry.item (List.mem_map_of_mem hentry) hop
        have hpos := List.length_pos_iff.2 hqueued
        simp only [hmap, copiesOf_eraseP_self]
        refine ⟨?_, List.length_eq_zero_iff.1 (by omega)⟩
        apply List.length_eq_zero_iff.1
        rw [List.length_tail]
        change (s.copiesQueued op).length - 1 = 0
        omega
  | false =>
      refine ⟨s.queue, _, rfl, ?_, ?_⟩
      · intro other hother
        exact ⟨rfl, copiesOf_eraseP_of_ne hother _⟩
      · intro hle
        refine ⟨contains_eq_false hcontains, ?_⟩
        apply List.length_eq_zero_iff.1
        rw [copiesOf_eraseP_self, List.length_tail]
        omega

theorem Inv.run_dequeue {s : EvaluationService} (h : s.Inv) {op : ESOperation}
    {rest : List Callback} (hready : s.ready = .dequeue op :: rest) :
    Keeps s ({ s with ready := rest }.runCallback (.dequeue op)) := by
  have htail := h.assigned.tail hready
  have hignored := htail.ignoreOperation op
  have hact : actsOn op [.dequeue op] = [.remove] := by simp [actsOn]
  have hothers : ∀ other, other ≠ op → actsOn other [.dequeue op] = [] := by
    intro other hother
    simp [actsOn, hother.symm]
  obtain ⟨queue, executing, heq, hkept, hgone⟩ := dequeue_spec { s with ready := rest } op
  have hrun : { s with ready := rest }.runCallback (.dequeue op) =
      ({ s with ready := rest, queue := queue, executing := executing }.ignoreOperation
        op).clearPendingOne op := by
    simp only [runCallback, heq]
  rw [hrun]
  refine h.of_moves ⟨hignored.sound, hignored.shards_nodup, hignored.holder,
    hignored.task, hignored.ids_nodup, hignored.ids_le, hignored.starts_le,
    hignored.ordered⟩ ⟨?_, h.scheduled.buffer, h.scheduled.unlocked, h.scheduled.dequeuing⟩
    ?_ le_rfl (fun op hop => .inr ⟨hop, fun hnil => hnil⟩)
  · exact pendingOperations_clear h.scheduled hready hact hothers
  · intro other
    have hassigned : (copiesAssigned (({ s with
        ready := rest, queue := queue, executing := executing }.ignoreOperation
          op).clearPendingOne op) other).Sublist (s.copiesAssigned other) := by
      have hshrinks := shrinks_ignoreOperation h.assigned.sound op
      unfold copiesAssigned
      show ((s.pool.ignoreOperation op).2.shards.flatMap _).Sublist _
      rw [hshrinks.shards_eq]
      exact flatMap_sublist (fun shard => copiesAt_sublist hshrinks shard other) _
    by_cases hop : other = op
    · subst hop
      have hhanded : (s.ledger other).handed = .remove :: actsOn other rest := by
        show actsOn other s.ready = _
        rw [hready, ← List.singleton_append, actsOn_append, hact]
        rfl
      refine Ledger.Move.apply hhanded ?_
      · have hle := h.exclusive other
        obtain ⟨hqueued, hexecuting⟩ := hgone (by
          change (s.copiesQueued other).length + (copiesOf other s.executing).length ≤ 1
          omega)
        have hworkers : copiesAssigned (({ s with
            ready := rest, queue := queue, executing := executing }.ignoreOperation
              other).clearPendingOne other) other = [] :=
          copiesAssigned_eq_nil (fun shard => htail.copiesAt_ignore other shard)
        simp only [hworkers, List.append_nil, Act.apply]
        show ((copiesOf other (queue.entries.map QueueEntry.item) ++
          copiesOf other executing : List Nat) : Multiset Nat) ≤ 0
        rw [hqueued, hexecuting]
        exact le_rfl
    · obtain ⟨hqueued, hexecuting⟩ := hkept other hop
      refine move_lose ?_ le_rfl ?_ rfl
      · refine Multiset.coe_le.2 (List.Sublist.subperm ?_)
        refine List.Sublist.append ?_ hassigned
        show (copiesOf other (queue.entries.map QueueEntry.item) ++
          copiesOf other executing).Sublist _
        rw [hqueued, hexecuting]
        exact List.Sublist.refl _
      · show actsOn other rest = actsOn other s.ready
        rw [hready, ← List.singleton_append, actsOn_append, hothers other hop, List.nil_append]

theorem Inv.run_start {s : EvaluationService} (h : s.Inv) {id : Nat}
    {rest : List Callback} (hready : s.ready = .start id :: rest) :
    Keeps s ({ s with ready := rest }.runCallback (.start id)) := by
  have hacts : ∀ op, actsOn op s.ready = actsOn op rest := by
    intro op
    rw [hready]
    simp [actsOn]
  refine h.of_moves (h.assigned.start hready)
    ⟨?_, h.scheduled.buffer, h.scheduled.unlocked, h.scheduled.dequeuing⟩
    ?_ le_rfl (fun op hop => .inr ⟨hop, fun hnil => hnil⟩)
  · intro op
    have hpending := h.scheduled.pending op
    rw [pendingActs, actsOn_append, hacts, ← actsOn_append] at hpending
    exact hpending
  · intro op
    refine move_lose (le_of_eq ?_) le_rfl (hacts op).symm rfl
    have hcopies : ∀ shard, copiesAt ({ s with ready := rest }.runCallback (.start id)) shard op =
        s.copiesAt shard op := by
      intro shard
      have hworker : ({ s with ready := rest }.runCallback (.start id)).pool.worker shard =
          s.pool.worker shard := rfl
      unfold copiesAt
      rw [hworker]
      cases (s.pool.worker shard).slot with
      | none => rfl
      | some sl =>
          have hitems : itemsOf ({ s with ready := rest }.runCallback (.start id)) sl.dispatch =
              s.itemsOf sl.dispatch := itemsOf_markStarted s id sl.dispatch
          simp only [hitems]
    simp only [ledger, copiesAssigned, hcopies]
    rfl

theorem Inv.runReady {s t : EvaluationService} (h : s.Inv) (hstep : s.runReady = some t) :
    Keeps s t := by
  unfold EvaluationService.runReady at hstep
  cases hready : s.ready with
  | nil => simp [hready] at hstep
  | cons callback rest =>
      simp only [hready, Option.some.injEq] at hstep
      subst hstep
      cases callback with
      | push item priority timestamp => exact h.run_push hready
      | dequeue op => exact h.run_dequeue hready
      | start id => exact h.run_start hready

end EvaluationService

end Service
end ContestManagement
