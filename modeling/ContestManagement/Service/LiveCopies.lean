import ContestManagement.Service.CopyInvariant

/-!
# One live copy of every operation

The sections and the flushes keep the invariant of the copies, so every run does.
-/

namespace ContestManagement
namespace Service

open Io Lib

namespace EvaluationService

/-! ### Sections -/

theorem contains_cache_eq_false {cache : FlushingDict ESOperation Result} {op : ESOperation}
    (h : cache.contains op = false) : cacheCopies op cache.entries = [] := by
  rw [cacheCopies, copiesOf_eq_nil]
  intro item hitem
  obtain ⟨entry, hentry, rfl⟩ := List.mem_map.1 hitem
  simp only [FlushingDict.contains, Bool.or_eq_false_iff, List.any_eq_false,
    decide_eq_true_eq] at h
  rcases List.mem_append.1 hentry with hentry | hentry
  · exact h.1 entry hentry
  · obtain ⟨batch, hbatch, hmem⟩ := List.mem_flatMap.1 hentry
    have hnone := h.2 batch hbatch
    simp only [List.any_eq_true, decide_eq_true_eq, not_exists, not_and] at hnone
    exact hnone entry hmem

/-- An operation that is not in the executor has no copy there. -/
theorem Inv.held_of_not_inExecutor {s : EvaluationService} (h : s.Inv) {op : ESOperation}
    (hnone : s.inExecutor op = false) : (s.ledger op).held = 0 := by
  simp only [inExecutor, Bool.or_eq_false_iff] at hnone
  obtain ⟨⟨hqueue, hexecuting⟩, hpool⟩ := hnone
  have hexec : copiesOf op s.executing = [] := by
    rw [copiesOf_eq_nil]
    intro item hitem
    simp only [List.any_eq_false, decide_eq_true_eq] at hexecuting
    exact hexecuting item hitem
  have hworkers : s.copiesAssigned op = [] := by
    apply copiesAssigned_eq_nil
    intro shard
    by_contra hlive
    have hholder : s.pool.operationsReverse op = some shard := h.assigned.holder shard op hlive
    rw [hholder] at hpool
    cases hpool
  simp only [ledger, contains_eq_false hqueue, hexec, hworkers, List.append_nil]
  rfl

/-- `_enqueue_sync` refuses and changes nothing, or it pushes an operation that has
no live copy. -/
theorem Inv.enqueueSync_cases {s : EvaluationService} (h : s.Inv) (op : ESOperation)
    (priority timestamp : Int) :
    s.enqueueSync op priority timestamp = (false, s) ∨
      (s.enqueueSync op priority timestamp = (true, { s.recordPending op .push with
          loopActions := s.loopActions ++ [.push ⟨op, s.nextCopy⟩ priority timestamp]
          nextCopy := s.nextCopy + 1 }) ∧ (s.ledger op).live = 0) := by
  have hpending := h.scheduled.pending op
  have hacts : (s.ledger op).pending = s.pendingActs op := by
    simp [Ledger.pending, ledger, pendingActs]
  by_cases hpush : (s.pendingOperations op).map Prod.fst = some .push
  · left
    simp only [enqueueSync, if_pos hpush]
  · by_cases hexecutor : ¬((s.pendingOperations op).map Prod.fst = some .dequeue ∨
        op ∈ s.dequeuedInSection) ∧ s.inExecutor op
    · left
      simp only [enqueueSync, if_neg hpush, if_pos hexecutor]
    · cases hcached : s.resultCache.contains op with
      | true =>
          left
          simp only [enqueueSync, if_neg hpush, if_neg hexecutor, hcached, if_true]
      | false =>
          right
          refine ⟨by simp only [enqueueSync, if_neg hpush, if_neg hexecutor, hcached,
            Bool.false_eq_true, if_false], ?_⟩
          have hcache : (s.ledger op).cached = 0 := by
            have hnil := contains_cache_eq_false hcached
            show ((s.copiesCached op : List Nat) : Multiset Nat) = 0
            rw [show s.copiesCached op = [] from hnil]
            rfl
          have hsurvivors : Act.survivors (s.ledger op).held (s.pendingActs op) = 0 := by
            cases hcase : s.pendingOperations op with
            | some pair =>
                -- The last recorded action is a dequeue.
                obtain ⟨action, count⟩ := pair
                cases action with
                | push =>
                    rw [hcase] at hpush
                    exact absurd rfl hpush
                | dequeue =>
                    rw [hcase] at hpending
                    exact survivors_of_summary_dequeue hpending.symm _
            | none =>
                rw [hcase] at hpending
                have hnil : s.pendingActs op = [] := summary_eq_none.1 hpending.symm
                rw [hnil, Act.survivors_nil]
                by_cases hdequeued : op ∈ s.dequeuedInSection
                · have hcleared := h.cleared op hdequeued
                  rw [pendingActs, actsOn_append, List.append_eq_nil_iff] at hnil
                  have hhanded : (s.ledger op).handed = [] := hnil.1
                  rwa [Ledger.Cleared, hhanded, Act.survivors_nil] at hcleared
                · apply h.held_of_not_inExecutor
                  cases hin : s.inExecutor op with
                  | false => rfl
                  | true =>
                      rw [hcase] at hexecutor
                      exact absurd ⟨by simp [hdequeued], hin⟩ hexecutor
          rw [Ledger.live, hacts, hsurvivors, hcache, add_zero]

theorem pendingOperations_record {s : EvaluationService} (h : s.Scheduled) {op : ESOperation}
    {callback : Callback} {act : Act Nat} (hact : actsOn op [callback] = [act])
    (hothers : ∀ other, other ≠ op → actsOn other [callback] = []) (other : ESOperation) :
    (s.recordPending op (actionName act)).pendingOperations other =
      summary (s.pendingActs other ++ actsOn other [callback]) := by
  unfold recordPending
  by_cases hop : other = op
  · subst hop
    rw [hact, summary_concat]
    simp only [Function.update_self, h.pending other, Option.some.injEq, Prod.mk.injEq, true_and]
    cases hsummary : summary (s.pendingActs other) with
    | none => simp [summary_eq_none.1 hsummary]
    | some pair =>
        rw [summary, Option.map_eq_some_iff] at hsummary
        obtain ⟨last, -, rfl⟩ := hsummary
        rfl
  · simp only [Function.update_of_ne hop, hothers other hop, List.append_nil, h.pending other]

theorem Inv.enqueue {s : EvaluationService} (h : s.Inv)
    (hlocked : ∃ holder, s.lockedBy = some holder ∧ ∀ todo operations,
      holder ≠ .dequeuing todo operations)
    (op : ESOperation) (priority timestamp : Int) :
    Keeps s (s.enqueueSync op priority timestamp).2 := by
  rcases h.enqueueSync_cases op priority timestamp with heq | ⟨heq, hlive⟩
  · rw [heq]
    exact ⟨h, fun op => move_lose le_rfl le_rfl rfl rfl, le_rfl⟩
  · rw [heq]
    obtain ⟨holder, hholder, hkind⟩ := hlocked
    have hact : actsOn op [.push ⟨op, s.nextCopy⟩ priority timestamp] = [.put s.nextCopy] := by
      simp [actsOn]
    have hothers : ∀ other, other ≠ op →
        actsOn other [.push ⟨op, s.nextCopy⟩ priority timestamp] = [] := by
      intro other hother
      simp [actsOn, hother.symm]
    have hassigned := h.assigned
    refine h.of_moves ⟨hassigned.sound, hassigned.shards_nodup, hassigned.holder,
      hassigned.task, hassigned.ids_nodup, hassigned.ids_le, hassigned.starts_le,
      hassigned.ordered⟩ ⟨?_, ?_, ?_, ?_⟩ ?_ (Nat.le_succ _) ?_
    · intro other
      have hrecord := pendingOperations_record h.scheduled hact hothers other
      rw [pendingActs, ← actsOn_append, List.append_assoc] at hrecord
      exact hrecord
    · intro callback hcallback
      rcases List.mem_append.1 hcallback with hcallback | hcallback
      · exact h.scheduled.buffer callback hcallback
      · exact ⟨_, _, _, List.mem_singleton.1 hcallback⟩
    · intro hnone
      change s.lockedBy = none at hnone
      rw [hholder] at hnone
      cases hnone
    · intro todo operations hdequeuing
      change s.lockedBy = some (.dequeuing todo operations) at hdequeuing
      rw [hholder, Option.some.injEq] at hdequeuing
      exact absurd hdequeuing (hkind todo operations)
    · intro other
      by_cases hop : other = op
      · subst hop
        have hledger : ledger { s.recordPending other .push with
            loopActions := s.loopActions ++ [.push ⟨other, s.nextCopy⟩ priority timestamp]
            nextCopy := s.nextCopy + 1 } other =
            { s.ledger other with
              buffered := (s.ledger other).buffered ++ [.put s.nextCopy] } := by
          simp only [ledger, actsOn_append, hact]
          rfl
        unfold Moves
        rw [hledger]
        exact Ledger.Move.put s.nextCopy le_rfl hlive
      · refine move_lose le_rfl le_rfl rfl ?_
        show actsOn other (s.loopActions ++ _) = _
        rw [actsOn_append, hothers other hop, List.append_nil]
    · intro other hother
      refine .inr ⟨hother, ?_⟩
      intro hnil
      change actsOn other (s.loopActions ++ _) = [] at hnil
      rw [actsOn_append, List.append_eq_nil_iff] at hnil
      exact hnil.1

/-- `_threadsafe_dequeue_and_ignore` in an invalidation that has enqueued nothing. -/
theorem Inv.dequeueNext {s : EvaluationService} (h : s.Inv) {op : ESOperation}
    {todo operations : List ESOperation}
    (hlocked : s.lockedBy = some (.dequeuing (op :: todo) operations)) :
    Keeps s { s.dequeueAndIgnore op with lockedBy := some (.dequeuing todo operations) } := by
  have hbuffer : s.loopActions = [] := h.scheduled.dequeuing _ _ hlocked
  have hready : (s.dequeueAndIgnore op).ready = s.ready ++ [.dequeue op] := by
    show s.ready ++ (s.loopActions ++ [.dequeue op]) = _
    rw [hbuffer, List.nil_append]
  have hact : actsOn op [.dequeue op] = [.remove] := by simp [actsOn]
  have hothers : ∀ other, other ≠ op → actsOn other [.dequeue op] = [] := by
    intro other hother
    simp [actsOn, hother.symm]
  have hshrinks := shrinks_ignoreOperation h.assigned.sound op
  have hassigned : Assigned { s.ignoreOperation op with ready := s.ready ++ [.dequeue op] } := by
    refine (h.assigned.ignoreOperation op).append_ready (by simp) ?_
    intro other hother shard
    simp only [List.mem_singleton, Callback.dequeue.injEq] at hother
    subst hother
    exact h.assigned.copiesAt_ignore other shard
  have hmoves : ∀ other, s.Moves { s.dequeueAndIgnore op with
      lockedBy := some (.dequeuing todo operations) } other := by
    intro other
    have hheld : (ledger { s.dequeueAndIgnore op with
        lockedBy := some (.dequeuing todo operations) } other).held ≤ (s.ledger other).held :=
      held_shrink hshrinks other
    by_cases hop : other = op
    · subst hop
      have hledger : ledger { s.dequeueAndIgnore other with
          lockedBy := some (.dequeuing todo operations) } other =
          { s.ledger other with
            held := (ledger { s.dequeueAndIgnore other with
              lockedBy := some (.dequeuing todo operations) } other).held
            handed := (s.ledger other).handed ++ (s.ledger other).buffered ++ [.remove]
            buffered := [] } := by
        simp only [ledger, hready, hbuffer, actsOn_append, hact, actsOn_nil, List.append_nil]
        rfl
      unfold Moves
      rw [hledger]
      exact Ledger.Move.cut hheld
    · refine move_lose hheld le_rfl ?_ ?_
      · show actsOn other (s.dequeueAndIgnore op).ready = _
        rw [hready, actsOn_append, hothers other hop, List.append_nil]
      · show actsOn other [] = actsOn other s.loopActions
        rw [hbuffer]
  refine h.of_moves ⟨hassigned.sound, hassigned.shards_nodup, hassigned.holder,
    hassigned.task, hassigned.ids_nodup, hassigned.ids_le, ?_, ?_⟩ ⟨?_, ?_, ?_, ?_⟩ hmoves
    le_rfl ?_
  · intro id hid
    rw [hready] at hid
    exact hassigned.starts_le id hid
  · intro shard sl other d hslot hd hid hlive
    rw [hready]
    exact hassigned.ordered shard sl other d hslot hd hid hlive
  · intro other
    have hrecord := pendingOperations_record h.scheduled hact hothers other
    rw [pendingActs, ← actsOn_append, List.append_assoc] at hrecord
    exact hrecord.trans (by
      rw [pendingActs, hready, hbuffer, List.nil_append]
      show _ = summary (actsOn other ((s.ready ++ [.dequeue op]) ++ []))
      rw [List.append_nil])
  · simp [EvaluationService.dequeueAndIgnore, flushLoopActions, ignoreOperation]
  · simp
  · intro _ _ _
    rfl
  · intro other hother
    change other ∈ s.dequeuedInSection ++ [op] at hother
    rcases List.mem_append.1 hother with hother | hother
    · right
      refine ⟨hother, ?_⟩
      intro _
      rw [hbuffer]
      rfl
    · left
      rw [List.mem_singleton.1 hother, Ledger.Cleared]
      show Act.survivors _ (actsOn op (s.dequeueAndIgnore op).ready) = 0
      rw [hready, actsOn_append, hact]
      exact Act.survivors_concat_remove _ _

theorem cacheCopies_sublist {op : ESOperation} {entries entries' : List (ESOperation × Result)}
    (h : entries'.Sublist entries) :
    (cacheCopies op entries' : Multiset Nat) ≤ cacheCopies op entries :=
  Multiset.coe_le.2 ((((h.map _).filter _).map _).subperm)

/-- The cache after `discard` is a part of the cache before it. -/
theorem entries_discard_sublist (cache : FlushingDict ESOperation Result)
    (predicate : ESOperation → Bool) :
    (cache.discard predicate).2.entries.Sublist cache.entries := by
  refine List.Sublist.append List.filter_sublist ?_
  show ((cache.flushing.map fun b => (b.1, b.2.filter fun kv => !predicate kv.1)).flatMap
    Prod.snd).Sublist _
  generalize cache.flushing = flushing
  induction flushing with
  | nil => exact List.Sublist.refl _
  | cons batch rest ih =>
      rw [List.map_cons, List.flatMap_cons, List.flatMap_cons]
      exact List.filter_sublist.append ih

/-- A call that changes the cache, the flushes, the discarded marks and who holds
the lock, but neither the loop nor the workers. -/
theorem Inv.of_cache {s t : EvaluationService} (h : s.Inv)
    (hcore : (t.queue, t.executing, t.pool, t.dispatches) =
      (s.queue, s.executing, s.pool, s.dispatches))
    (hready : t.ready = s.ready) (hbuffer : t.loopActions = s.loopActions)
    (hpending : t.pendingOperations = s.pendingOperations)
    (hdequeued : t.dequeuedInSection = s.dequeuedInSection)
    (hlocked : t.lockedBy ≠ none ∨ t.lockedBy = s.lockedBy)
    (hdequeuing : ∀ todo operations, t.lockedBy = some (.dequeuing todo operations) →
      t.loopActions = [])
    (hcached : ∀ op, (t.copiesCached op : Multiset Nat) ≤ s.copiesCached op)
    (hnext : t.nextCopy = s.nextCopy) : Keeps s t := by
  simp only [Prod.mk.injEq] at hcore
  obtain ⟨hqueue, hexecuting, hpool, hdispatches⟩ := hcore
  have hcopiesAt : ∀ shard op, t.copiesAt shard op = s.copiesAt shard op := by
    intro shard op
    simp only [copiesAt, itemsOf, hpool, hdispatches]
  have hassigned := h.assigned
  refine h.of_moves ⟨?_, ?_, ?_, ?_, ?_, ?_, ?_, ?_⟩ ⟨?_, ?_, ?_, hdequeuing⟩ ?_
    (le_of_eq hnext.symm) ?_
  · exact hpool ▸ hassigned.sound
  · exact hpool ▸ hassigned.shards_nodup
  · intro shard op hlive
    rw [hcopiesAt] at hlive
    exact hpool ▸ hassigned.holder shard op hlive
  · rw [hpool, hdispatches]
    exact hassigned.task
  · rw [hdispatches]
    exact hassigned.ids_nodup
  · rw [hpool, hdispatches]
    exact hassigned.ids_le
  · rw [hpool, hready]
    exact hassigned.starts_le
  · intro shard sl op d hslot hd hid hlive
    rw [hcopiesAt] at hlive
    rw [hpool] at hslot
    rw [hdispatches] at hd
    rw [hready]
    exact hassigned.ordered shard sl op d hslot hd hid hlive
  · intro op
    rw [pendingActs, hpending, hready, hbuffer]
    exact h.scheduled.pending op
  · rw [hbuffer]
    exact h.scheduled.buffer
  · intro hnone
    rcases hlocked with hlocked | hlocked
    · exact absurd hnone hlocked
    · rw [hbuffer, hdequeued]
      exact h.scheduled.unlocked (hlocked ▸ hnone)
  · intro op
    refine move_lose (le_of_eq ?_) (hcached op) (by rw [hready]) (by rw [hbuffer])
    simp only [ledger, copiesQueued, copiesAssigned, hcopiesAt, hqueue, hexecuting, hpool]
  · intro op hop
    rw [hdequeued] at hop
    rw [hbuffer]
    exact .inr ⟨hop, fun hnil => hnil⟩

theorem Inv.closeSection {s t : EvaluationService} (h : s.Inv) (hstep : s.closeSection = some t) :
    Keeps s t := by
  have hassigned : Assigned { s with ready := s.ready ++ s.loopActions } := by
    refine h.assigned.append_ready ?_ ?_
    · intro id hid
      obtain ⟨item, priority, timestamp, heq⟩ := h.scheduled.buffer _ hid
      cases heq
    · intro op hop
      obtain ⟨item, priority, timestamp, heq⟩ := h.scheduled.buffer _ hop
      cases heq
  -- The flushes are no part of the invariant.
  have hclosed : ∀ flushes, Keeps s { s with
      dequeuedInSection := []
      lockedBy := none
      ready := s.ready ++ s.loopActions
      loopActions := []
      flushes := flushes } := by
    intro flushes
    refine h.of_moves ⟨hassigned.sound, hassigned.shards_nodup, hassigned.holder,
      hassigned.task, hassigned.ids_nodup, hassigned.ids_le, hassigned.starts_le,
      hassigned.ordered⟩ ⟨?_, by simp, by simp, by simp⟩ ?_ le_rfl (by simp)
    · intro op
      have hpending := h.scheduled.pending op
      rw [pendingActs] at hpending ⊢
      rw [List.append_nil]
      exact hpending
    · intro op
      have hledger : ledger { s with
          dequeuedInSection := []
          lockedBy := none
          ready := s.ready ++ s.loopActions
          loopActions := []
          flushes := flushes } op = { s.ledger op with
            handed := (s.ledger op).handed ++ (s.ledger op).buffered, buffered := [] } := by
        simp only [ledger, actsOn_append, actsOn_nil]
        rfl
      unfold Moves
      rw [hledger]
      exact Ledger.Move.hand
  unfold EvaluationService.closeSection at hstep
  cases hlocked : s.lockedBy with
  | none => simp [hlocked] at hstep
  | some holder =>
      simp only [hlocked] at hstep
      cases holder with
      | enqueuing =>
          simp only [Option.some.injEq] at hstep
          exact hstep ▸ hclosed s.flushes
      | dequeuing todo operations =>
          simp only [Option.some.injEq] at hstep
          exact hstep ▸ hclosed s.flushes
      | writing batch =>
          simp only [Option.some.injEq] at hstep
          exact hstep ▸ hclosed _

/-! ### Flushes -/

theorem entries_takeBatch_perm (cache : FlushingDict ESOperation Result) :
    cache.takeBatch.2.entries.Perm cache.entries := by
  simp only [FlushingDict.entries, FlushingDict.takeBatch, List.nil_append, List.flatMap_append,
    List.flatMap_cons, List.flatMap_nil, List.append_nil]
  exact List.perm_append_comm

theorem entries_dropBatch_sublist (cache : FlushingDict ESOperation Result) (batch : Nat) :
    (cache.dropBatch batch).entries.Sublist cache.entries := by
  refine List.Sublist.append (List.Sublist.refl _) ?_
  show ((cache.flushing.filter _).flatMap Prod.snd).Sublist _
  generalize cache.flushing = flushing
  induction flushing with
  | nil => exact List.Sublist.refl _
  | cons first rest ih =>
      rw [List.filter_cons, List.flatMap_cons]
      split_ifs
      · rw [List.flatMap_cons]
        exact (List.Sublist.refl _).append ih
      · exact ih.trans (List.sublist_append_right _ _)

theorem Inv.takeFlush {s : EvaluationService} (h : s.Inv) : Keeps s s.takeFlush := by
  refine h.of_cache rfl rfl rfl rfl rfl (.inr rfl) h.scheduled.dequeuing ?_ rfl
  intro op
  refine le_of_eq (Multiset.coe_eq_coe.2 (copiesOf_perm ?_))
  exact (entries_takeBatch_perm s.resultCache).map _

theorem Inv.writeResults {s t : EvaluationService} (h : s.Inv) {batch : Nat}
    (hstep : s.writeResults batch = some t) : Keeps s t := by
  unfold EvaluationService.writeResults at hstep
  by_cases hlocked : s.lockedBy = none
  · rw [if_pos hlocked] at hstep
    cases hfind : s.flushes.find? fun f => f.batch = batch ∧ f.phase = .taken with
    | none =>
        rw [hfind] at hstep
        cases hstep
    | some f =>
        simp only [hfind, Option.some.injEq] at hstep
        subst hstep
        exact h.of_cache rfl rfl rfl rfl rfl (.inl (by simp)) (by simp) (fun op => le_rfl) rfl
  · rw [if_neg hlocked] at hstep
    cases hstep

theorem Inv.endFlush {s t : EvaluationService} (h : s.Inv) {batch : Nat}
    (hstep : s.endFlush batch = some t) : Keeps s t := by
  unfold EvaluationService.endFlush at hstep
  cases hfind : s.flushes.find? fun f => f.batch = batch ∧ f.phase = .written with
  | none =>
      rw [hfind] at hstep
      cases hstep
  | some f =>
      simp only [hfind, Option.some.injEq] at hstep
      subst hstep
      refine h.of_cache rfl rfl rfl rfl rfl (.inr rfl) h.scheduled.dequeuing ?_ rfl
      intro op
      exact cacheCopies_sublist (entries_dropBatch_sublist s.resultCache batch)

/-! ### Runs -/

/-- What one call preserves. -/
theorem Inv.step {s t : EvaluationService} (h : s.Inv) {a : ServiceAction}
    (hstep : s.step a = some t) : Keeps s t := by
  have hsound := h.assigned.sound
  cases a with
  | openSection =>
      simp only [EvaluationService.step, Option.ite_none_right_eq_some, Option.some.injEq] at hstep
      obtain ⟨-, rfl⟩ := hstep
      exact h.of_cache rfl rfl rfl rfl rfl (.inl (by simp)) (by simp) (fun op => le_rfl) rfl
  | openInvalidation level submissions datasetId =>
      simp only [EvaluationService.step, Option.ite_none_right_eq_some, Option.some.injEq] at hstep
      obtain ⟨hunlocked, rfl⟩ := hstep
      exact h.of_cache rfl rfl rfl rfl rfl (.inl (by simp))
        (fun _ _ _ => (h.scheduled.unlocked hunlocked).1) (fun op => le_rfl) rfl
  | dequeueNext =>
      simp only [EvaluationService.step] at hstep
      split at hstep
      · rename_i op todo operations hlocked
        cases hstep
        exact h.dequeueNext hlocked
      · cases hstep
  | discardCached =>
      simp only [EvaluationService.step] at hstep
      split at hstep
      · rename_i operations hlocked
        cases hstep
        refine h.of_cache rfl rfl rfl rfl rfl (.inl (by simp)) (by simp) ?_ rfl
        intro op
        exact cacheCopies_sublist (entries_discard_sublist s.resultCache
          fun other => other.key ∈ operations.map ESOperation.key)
      · cases hstep
  | enqueue op priority timestamp =>
      simp only [EvaluationService.step] at hstep
      split at hstep
      · rename_i hlocked
        cases hstep
        exact h.enqueue ⟨_, hlocked, by simp⟩ op priority timestamp
      · rename_i batch hlocked
        cases hstep
        exact h.enqueue ⟨_, hlocked, by simp⟩ op priority timestamp
      · cases hstep
  | closeSection => exact h.closeSection hstep
  | runReady => exact h.runReady hstep
  | pop => exact h.pop hstep
  | dispatch pick now => exact h.dispatch hstep
  | answer id failed => exact h.answer hstep
  | takeFlush =>
      cases hstep
      exact h.takeFlush
  | writeResults batch => exact h.writeResults hstep
  | endFlush batch => exact h.endFlush hstep
  | setTimeout shard id timeout now =>
      cases hstep
      exact h.shrink (shrinks_of_takesBack (hsound.setTimeout shard (some id) timeout now))
  | markAnswered shard id now =>
      cases hstep
      exact h.shrink (shrinks_of_takesBack (hsound.markAnswered shard (some id) now))
  | checkTimeouts now =>
      cases hstep
      obtain ⟨freed, lost, q, hq, hback⟩ := WorkerPool.checkTimeouts_takesBack hsound now
      rw [hq]
      exact h.shrink (shrinks_of_takesBack hback)
  | checkConnections =>
      cases hstep
      obtain ⟨freed, lost, q, hq, hback⟩ := WorkerPool.checkConnections_takesBack hsound
      rw [hq]
      exact h.shrink (shrinks_of_takesBack hback)
  | disableWorker shard =>
      cases hstep
      obtain ⟨freed, lost, hback, -⟩ := hsound.disableWorker shard
      exact h.shrink (shrinks_of_takesBack hback)
  | enableWorker shard =>
      cases hstep
      exact h.shrink (shrinks_of_takesBack (hsound.enableWorker shard))
  | connected shard =>
      simp only [EvaluationService.step, Option.ite_none_right_eq_some, Option.some.injEq] at hstep
      obtain ⟨-, rfl⟩ := hstep
      exact h.shrink (shrinks_of_takesBack (hsound.onWorkerConnected shard))
  | disconnected shard =>
      simp only [EvaluationService.step, Option.ite_none_right_eq_some, Option.some.injEq] at hstep
      obtain ⟨-, rfl⟩ := hstep
      exact h.shrink (shrinks_of_takesBack (hsound.onWorkerDisconnected shard))

end EvaluationService

/-- EvaluationService with `count` workers. -/
def serviceMachine (count : Nat) : Machine EvaluationService ServiceAction where
  init := fun s => s = EvaluationService.start count
  step := EvaluationService.step

namespace EvaluationService

theorem inv_start (count : Nat) : (start count).Inv := by
  have hroster : (start count).pool.roster = Roster.idle ESOperation :=
    WorkerPool.roster_withWorkers count
  have hslot : ∀ shard, (start count).pool.roster.slot shard = none := by
    intro shard
    rw [hroster]
    rfl
  have hcopies : ∀ shard op, (start count).copiesAt shard op = [] := by
    intro shard op
    have hrow : ((start count).pool.worker shard).slot = none := hslot shard
    simp [copiesAt, hrow]
  have hledger : ∀ op, (start count).ledger op = ⟨0, [], [], 0⟩ := by
    intro op
    have hassigned : (start count).copiesAssigned op = [] :=
      copiesAssigned_eq_nil (fun shard => hcopies shard op)
    simp only [ledger, hassigned]
    rfl
  refine ⟨⟨WorkerPool.sound_withWorkers count, ?_, ?_, ?_, ?_, ?_, ?_, ?_⟩, ⟨?_, ?_, ?_, ?_⟩,
    ?_, ?_⟩
  · show (WorkerPool.withWorkers ESOperation count).shards.Nodup
    rw [WorkerPool.shards_withWorkers]
    exact List.nodup_range
  · intro shard op hlive
    exact absurd (hcopies shard op) hlive
  · intro shard sl hsl
    rw [hslot] at hsl
    cases hsl
  · simp [start]
  · simp [start]
  · simp [start]
  · intro shard sl op d hsl
    rw [hslot] at hsl
    cases hsl
  · intro op
    rfl
  · simp [start]
  · exact fun _ => ⟨rfl, rfl⟩
  · exact fun _ _ _ => rfl
  · intro op
    rw [hledger]
    exact ⟨by simp [Ledger.pending, Act.Exclusive], by simp [Ledger.live, Ledger.pending]⟩
  · simp [start]

/-- What a run preserves. -/
theorem inv_of_reachable {count : Nat} {s : EvaluationService}
    (h : (serviceMachine count).Reachable s) : s.Inv :=
  h.invariant (fun _ hs => hs ▸ inv_start count) (fun _ _ _ hs hstep => (hs.step hstep).inv)

end EvaluationService

/-- In every reachable state every operation has at most one live copy.  When no
dequeue of the operation is on its way to the loop, that counts every copy in the
queue, in the executing list, at a worker without an ignore mark, pending as a
push, or in the result cache. -/
theorem live_copies_le_one (count : Nat) (s : EvaluationService)
    (h : (serviceMachine count).Reachable s) (op : ESOperation) :
    (s.liveCopies op).length ≤ 1 ∧
      (.dequeue op ∉ s.ready ++ s.loopActions →
        (s.copiesQueued op).length + (copiesOf op s.executing).length +
          (s.copiesAssigned op).length + (s.pendingActs op).length +
          (s.copiesCached op).length ≤ 1) := by
  have hinv := EvaluationService.inv_of_reachable h
  have hlive : (s.liveCopies op).length ≤ 1 := by
    have hcard := (hinv.single op).live_le
    rw [EvaluationService.live_ledger, Multiset.coe_card] at hcard
    exact hcard
  refine ⟨hlive, ?_⟩
  intro hdequeue
  rw [← remove_mem_actsOn] at hdequeue
  change .remove ∉ s.pendingActs op at hdequeue
  have hputs := Act.livePuts_length hdequeue
  have hremoves := Act.removes_eq_false hdequeue
  simp only [EvaluationService.liveCopies, hremoves, Bool.false_eq_true, if_false,
    List.length_append] at hlive
  omega

/-- An operation is enqueued, reaches a worker, and its task starts. -/
def handOut (op : ESOperation) : List ServiceAction :=
  [.openSection, .enqueue op 2 0, .closeSection, .runReady, .pop, .dispatch 0 0, .runReady]

/-- The compilation of submission 1. -/
def compileOne : ESOperation := ⟨.compilation, 1, 1, none, false⟩

/-- The evaluation of submission 1 on testcase `001`. -/
def evaluateOne : ESOperation := ⟨.evaluation, 1, 1, some "001", false⟩

/-- An invalidation of submission 1 from its compilation, up to its enqueues. -/
def invalidateOne : List ServiceAction :=
  [.openInvalidation .compilation [⟨1, [⟨1, ["001"]⟩]⟩] none,
    .dequeueNext, .dequeueNext, .dequeueNext, .dequeueNext, .discardCached]

/-- The compilation is invalidated at its worker and enqueued again: the copy at the
worker is dead, the pending push is the live one. -/
theorem live_copies_le_one_invalidated :
    ∃ s, (serviceMachine 1).exec (EvaluationService.start 1)
        ([.connected 0] ++ handOut compileOne ++ invalidateOne ++ [.enqueue compileOne 3 0]) =
          some s ∧
      s.pool.operationsReverse compileOne = some 0 ∧ s.liveCopies compileOne = [1] ∧
      (s.liveCopies compileOne).length ≤ 1 := by
  have hrun : ((serviceMachine 1).exec (EvaluationService.start 1)
      ([.connected 0] ++ handOut compileOne ++ invalidateOne ++ [.enqueue compileOne 3 0])).map
      (fun s => (s.pool.operationsReverse compileOne, s.liveCopies compileOne)) =
      some (some 0, [1]) := by
    decide +kernel
  obtain ⟨s, hs, hvalues⟩ := Option.map_eq_some_iff.1 hrun
  rw [Prod.mk.injEq] at hvalues
  exact ⟨s, hs, hvalues.1, hvalues.2,
    (live_copies_le_one 1 s (Machine.reachable_of_exec rfl hs) compileOne).1⟩

end Service
end ContestManagement
