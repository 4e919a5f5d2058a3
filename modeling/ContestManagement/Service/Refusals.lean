import ContestManagement.Service.LiveCopies

/-!
# When `_enqueue_sync` refuses an operation

A refusal is right when some copy of the operation will still have an effect.
The membership tests also see copies that will not: an assignment at a worker
keeps its entry in the reverse map after an invalidation has marked it as ignored,
and a failed result stays in the cache while it is being written.
-/

namespace ContestManagement
namespace Service

open Io Lib

namespace EvaluationService

/-- A cached result whose handling is still to come, or that succeeded. -/
def cachedWithEffect (s : EvaluationService) (op : ESOperation) : Bool :=
  (s.resultCache.d.any fun kv => kv.1 = op) ||
    s.resultCache.flushing.any fun b => b.2.any fun kv =>
      kv.1 = op && (kv.2.jobSuccess ||
        s.flushes.any fun f => f.batch = b.1 && f.phase = .taken)

/-- A copy of the operation will still have an effect: in the queue, in the executing
list or at a worker without an ignore mark, and no dequeue on its way; pending as a
push; or a cached result that is not a failure being written. -/
def hasEffect (s : EvaluationService) (op : ESOperation) : Bool :=
  (!Act.removes (s.pendingActs op) &&
      (s.copiesQueued op ++ copiesOf op s.executing ++ s.copiesAssigned op ≠ [])) ||
    (Act.livePuts (s.pendingActs op) ≠ []) || s.cachedWithEffect op

/-- Only a worker told to ignore the operation has it, and nothing in this section
or on its way to the loop dequeues it. -/
def ignoredOnly (s : EvaluationService) (op : ESOperation) : Prop :=
  s.pendingOperations op = none ∧ op ∉ s.dequeuedInSection ∧
    s.queue.contains Queued.operation op = false ∧
    (∀ item ∈ s.executing, item.operation ≠ op) ∧ s.resultCache.contains op = false ∧
    ∃ shard, s.pool.operationsReverse op = some shard ∧
      op ∈ (s.pool.worker shard).operationsToIgnore

/-- A batch whose write has begun holds a failed result of the operation. -/
def failureBeingWritten (s : EvaluationService) (op : ESOperation) : Prop :=
  ∃ b ∈ s.resultCache.flushing, ∃ kv ∈ b.2, kv.1 = op ∧ kv.2.jobSuccess = false ∧
    ∀ f ∈ s.flushes, f.batch = b.1 → f.phase ≠ .taken

theorem livePuts_of_summary_push {acts : List (Act Nat)} {count : Nat}
    (h : summary acts = some (.push, count)) : Act.livePuts acts ≠ [] := by
  rw [summary, Option.map_eq_some_iff] at h
  obtain ⟨last, hlast, hpair⟩ := h
  cases last with
  | remove => simp [actionName] at hpair
  | put copy =>
      obtain ⟨init, rfl⟩ := List.getLast?_eq_some_iff.1 hlast
      intro hnil
      have hsurvivors := Act.survivors_eq (0 : Multiset Nat) (init ++ [.put copy])
      rw [Act.survivors_concat_put, hnil, ite_self] at hsurvivors
      exact Multiset.cons_ne_zero hsurvivors

theorem contains_cache_iff {cache : FlushingDict ESOperation Result} {op : ESOperation} :
    cache.contains op = true ↔
      (∃ kv ∈ cache.d, kv.1 = op) ∨ ∃ b ∈ cache.flushing, ∃ kv ∈ b.2, kv.1 = op := by
  simp [FlushingDict.contains]

/-- A cached result has an effect unless it is a failure being written. -/
theorem cachedWithEffect_of_contains {s : EvaluationService} {op : ESOperation}
    (hcontains : s.resultCache.contains op = true) (hfailure : ¬s.failureBeingWritten op) :
    s.cachedWithEffect op = true := by
  rw [contains_cache_iff] at hcontains
  simp only [cachedWithEffect, Bool.or_eq_true, List.any_eq_true, decide_eq_true_eq,
    Bool.and_eq_true]
  rcases hcontains with hd | ⟨b, hb, kv, hkv, hop⟩
  · exact .inl hd
  · right
    refine ⟨b, hb, kv, hkv, hop, ?_⟩
    by_contra hnone
    push Not at hnone
    apply hfailure
    refine ⟨b, hb, kv, hkv, hop, by simpa using hnone.1, ?_⟩
    intro f hf hbatch
    exact hnone.2 f hf hbatch

theorem contains_of_cachedWithEffect {s : EvaluationService} {op : ESOperation}
    (h : s.cachedWithEffect op = true) : s.resultCache.contains op = true := by
  simp only [cachedWithEffect, Bool.or_eq_true, List.any_eq_true, decide_eq_true_eq,
    Bool.and_eq_true] at h
  rw [contains_cache_iff]
  rcases h with hd | ⟨b, hb, kv, hkv, hop, -⟩
  · exact .inl hd
  · exact .inr ⟨b, hb, kv, hkv, hop⟩

/-- The operation is live at the worker that the reverse map names, unless that
worker ignores it. -/
theorem Inv.copiesAt_holder {s : EvaluationService} (h : s.Inv) {op : ESOperation} {shard : Nat}
    (hholder : s.pool.operationsReverse op = some shard)
    (hignored : op ∉ (s.pool.worker shard).operationsToIgnore) : s.copiesAt shard op ≠ [] := by
  obtain ⟨sl, hslot, hop⟩ := h.assigned.sound.roster.holder_holds op shard hholder
  obtain ⟨d, hd, hid, -, hitems⟩ := h.assigned.task shard sl hslot
  have htoIgnore : (s.pool.worker shard).operationsToIgnore = sl.toIgnore :=
    (Worker.slot_eq_some.1 hslot).2.2
  rw [htoIgnore] at hignored
  rw [copiesAt_of_slot hslot hignored, ← hid, itemsOf_of_mem h.assigned.ids_nodup hd]
  intro hnil
  rw [copiesOf_eq_nil] at hnil
  rw [← hitems] at hop
  obtain ⟨item, hitem, heq⟩ := List.mem_map.1 hop
  exact hnil item hitem heq

theorem copiesAssigned_ne_nil {s : EvaluationService} (h : s.Assigned) {op : ESOperation}
    {shard : Nat} (hlive : s.copiesAt shard op ≠ []) : s.copiesAssigned op ≠ [] := by
  obtain ⟨sl, hslot, -⟩ := copiesAt_ne_nil hlive
  have hle := length_copiesAt_le (h.mem_shards hslot) op
  have hpos := List.length_pos_iff.2 hlive
  intro hnil
  rw [hnil, List.length_nil] at hle
  omega

/-- When neither kind of dead copy is around, a refusal has a copy with an effect. -/
theorem Inv.hasEffect_of_refused {s : EvaluationService} (h : s.Inv) {op : ESOperation}
    {priority timestamp : Int} (hignored : ¬s.ignoredOnly op)
    (hfailure : ¬s.failureBeingWritten op)
    (hrefused : (s.enqueueSync op priority timestamp).1 = false) : s.hasEffect op = true := by
  have hpending := h.scheduled.pending op
  simp only [hasEffect, Bool.or_eq_true, Bool.and_eq_true, Bool.not_eq_true',
    decide_eq_true_eq]
  by_cases hcached : s.resultCache.contains op = true
  · exact .inr (cachedWithEffect_of_contains hcached hfailure)
  · left
    rw [Bool.not_eq_true] at hcached
    cases hcase : s.pendingOperations op with
    | some pair =>
        obtain ⟨action, count⟩ := pair
        cases action with
        | push =>
            rw [hcase] at hpending
            exact .inr (livePuts_of_summary_push hpending.symm)
        | dequeue =>
            simp [enqueueSync, hcase, hcached] at hrefused
    | none =>
        left
        rw [hcase] at hpending
        have hacts : s.pendingActs op = [] := summary_eq_none.1 hpending.symm
        refine ⟨by rw [hacts]; rfl, ?_⟩
        -- The refusal comes from the executor.
        have hexecutor : op ∉ s.dequeuedInSection ∧ s.inExecutor op = true := by
          by_contra hnone
          have hcond : ¬(op ∉ s.dequeuedInSection ∧ s.inExecutor op = true) := hnone
          simp [enqueueSync, hcase, hcached, hcond] at hrefused
        cases hqueue : s.queue.contains Queued.operation op with
        | true =>
            simp only [AsyncPriorityQueue.contains, List.any_eq_true, decide_eq_true_eq] at hqueue
            obtain ⟨entry, hentry, hop⟩ := hqueue
            have hne : s.copiesQueued op ≠ [] := by
              intro hnil
              rw [copiesQueued, copiesOf_eq_nil] at hnil
              exact hnil entry.item (List.mem_map_of_mem hentry) hop
            simp [hne]
        | false =>
            by_cases hexecuting : ∃ item ∈ s.executing, item.operation = op
            · obtain ⟨item, hitem, hop⟩ := hexecuting
              have hne : copiesOf op s.executing ≠ [] := by
                intro hnil
                rw [copiesOf_eq_nil] at hnil
                exact hnil item hitem hop
              simp [hne]
            · push Not at hexecuting
              have hany : (s.executing.any fun item => item.operation = op) = false := by
                simpa using hexecuting
              have hpool := hexecutor.2
              simp only [inExecutor, hqueue, hany, Bool.false_or] at hpool
              obtain ⟨shard, hholder⟩ := Option.isSome_iff_exists.1 hpool
              have hnot : op ∉ (s.pool.worker shard).operationsToIgnore := by
                intro hmem
                exact hignored ⟨hcase, hexecutor.1, hqueue, hexecuting, hcached, shard,
                  hholder, hmem⟩
              have hne := copiesAssigned_ne_nil h.assigned (h.copiesAt_holder hholder hnot)
              simp [hne]

/-- A copy that only an ignoring worker has blocks the operation for nothing. -/
theorem Inv.refused_of_ignoredOnly {s : EvaluationService} (h : s.Inv) {op : ESOperation}
    (hignored : s.ignoredOnly op) (priority timestamp : Int) :
    (s.enqueueSync op priority timestamp).1 = false ∧ s.hasEffect op = false := by
  obtain ⟨hpending, hdequeued, hqueue, hexecuting, hcached, shard, hholder, hmem⟩ := hignored
  have hexecutor : s.inExecutor op = true := by simp [inExecutor, hholder]
  constructor
  · simp [enqueueSync, hpending, hdequeued, hexecutor]
  · have hacts : s.pendingActs op = [] := by
      have hsummary := h.scheduled.pending op
      rw [hpending] at hsummary
      exact summary_eq_none.1 hsummary.symm
    have hworkers : s.copiesAssigned op = [] := by
      apply copiesAssigned_eq_nil
      intro other
      by_contra hlive
      have hother : s.pool.operationsReverse op = some other := h.assigned.holder other op hlive
      rw [hholder, Option.some.injEq] at hother
      subst hother
      obtain ⟨sl, hslot, hnot, -⟩ := copiesAt_ne_nil hlive
      exact hnot ((Worker.slot_eq_some.1 hslot).2.2 ▸ hmem)
    have heffect : s.cachedWithEffect op = false := by
      by_contra hsome
      rw [Bool.not_eq_false] at hsome
      rw [contains_of_cachedWithEffect hsome] at hcached
      cases hcached
    simp [hasEffect, hacts, contains_eq_false hqueue, copiesOf_eq_nil.2 hexecuting, hworkers,
      heffect, Act.livePuts]

/-- The results of an operation that are being flushed, with their batches. -/
def flushingOf (s : EvaluationService) (op : ESOperation) :
    List (Nat × ESOperation × Result) :=
  s.resultCache.flushing.flatMap fun b => (b.2.filter fun kv => kv.1 = op).map fun kv => (b.1, kv)

theorem mem_flushingOf {s : EvaluationService} {op : ESOperation}
    {b : Nat × List (ESOperation × Result)} (hb : b ∈ s.resultCache.flushing)
    {kv : ESOperation × Result} (hkv : kv ∈ b.2) (hop : kv.1 = op) :
    (b.1, kv) ∈ s.flushingOf op := by
  refine List.mem_flatMap.2 ⟨b, hb, List.mem_map_of_mem (List.mem_filter.2 ⟨hkv, ?_⟩)⟩
  simpa using hop

theorem length_copiesCached (s : EvaluationService) (op : ESOperation) :
    (s.copiesCached op).length =
      (s.resultCache.d.filter fun kv => kv.1 = op).length + (s.flushingOf op).length := by
  have hlength : ∀ entries : List (ESOperation × Result),
      (cacheCopies op entries).length = (entries.filter fun kv => kv.1 = op).length := by
    intro entries
    simp only [cacheCopies, copiesOf, List.length_map, List.filter_map]
    rfl
  have hflushing : ∀ flushing : List (Nat × List (ESOperation × Result)),
      ((flushing.flatMap Prod.snd).filter fun kv => kv.1 = op).length =
        (flushing.flatMap fun b => (b.2.filter fun kv => kv.1 = op).map fun kv =>
          (b.1, kv)).length := by
    intro flushing
    induction flushing with
    | nil => rfl
    | cons b rest ih => simp [List.filter_append, ih]
  show (cacheCopies op s.resultCache.entries).length = _
  rw [hlength, FlushingDict.entries, List.filter_append, List.length_append, hflushing]
  rfl

/-- A failure being written blocks the operation for nothing: by the invariant it is
the only copy left. -/
theorem Inv.refused_of_failure {s : EvaluationService} (h : s.Inv) {op : ESOperation}
    (hfailure : s.failureBeingWritten op) (priority timestamp : Int) :
    (s.enqueueSync op priority timestamp).1 = false ∧ s.hasEffect op = false := by
  obtain ⟨b, hb, kv, hkv, hop, hfailed, hphase⟩ := hfailure
  have hcontains : s.resultCache.contains op = true :=
    contains_cache_iff.2 (.inr ⟨b, hb, kv, hkv, hop⟩)
  have hmem := mem_flushingOf hb hkv hop
  have hpos := List.length_pos_of_mem hmem
  have hlive : (s.liveCopies op).length ≤ 1 := by
    have hcard := (h.single op).live_le
    rwa [live_ledger, Multiset.coe_card] at hcard
  have hcached := length_copiesCached s op
  simp only [liveCopies, List.length_append] at hlive
  constructor
  · simp only [enqueueSync, hcontains, if_true]
    split_ifs <;> rfl
  · have heffect : s.cachedWithEffect op = false := by
      rw [Bool.eq_false_iff]
      intro hsome
      simp only [cachedWithEffect, Bool.or_eq_true, List.any_eq_true, decide_eq_true_eq,
        Bool.and_eq_true] at hsome
      rcases hsome with ⟨kv', hkv', hop'⟩ | ⟨b', hb', kv', hkv', hop', hgood⟩
      · have hd : kv' ∈ s.resultCache.d.filter fun kv => kv.1 = op :=
          List.mem_filter.2 ⟨hkv', by simpa using hop'⟩
        have hdpos := List.length_pos_of_mem hd
        omega
      · -- There is room for one flushed result only, so it is the failed one.
        have hmem' := mem_flushingOf hb' hkv' hop'
        obtain ⟨only, honly⟩ := List.length_eq_one_iff.1
          (show (s.flushingOf op).length = 1 by omega)
        rw [honly, List.mem_singleton] at hmem hmem'
        have hsame := hmem'.trans hmem.symm
        rw [Prod.mk.injEq] at hsame
        rw [hsame.1, hsame.2, hfailed] at hgood
        rcases hgood with hgood | ⟨f, hf, hbatch, htaken⟩
        · cases hgood
        · exact hphase f hf hbatch htaken
    have hputs : Act.livePuts (s.pendingActs op) = [] := List.length_eq_zero_iff.1 (by omega)
    cases hremoves : Act.removes (s.pendingActs op) with
    | true => simp [hasEffect, hremoves, hputs, heffect]
    | false =>
        rw [hremoves] at hlive
        simp only [Bool.false_eq_true, if_false, List.length_append] at hlive
        have hheld : s.copiesQueued op ++ copiesOf op s.executing ++ s.copiesAssigned op = [] := by
          apply List.length_eq_zero_iff.1
          simp only [List.length_append]
          omega
        simp [hasEffect, hheld, hputs, heffect]

end EvaluationService

/-- In every reachable state a refusal of `_enqueue_sync` has a copy that will still
have an effect, unless the operation is only at a worker that ignores it, or its
failed result is being written; in both of these cases it refuses for nothing. -/
theorem refusal_has_effect_iff (count : Nat) (s : EvaluationService)
    (h : (serviceMachine count).Reachable s) (op : ESOperation) (priority timestamp : Int) :
    ((s.enqueueSync op priority timestamp).1 = false → s.hasEffect op = true) ↔
      ¬s.ignoredOnly op ∧ ¬s.failureBeingWritten op := by
  have hinv := EvaluationService.inv_of_reachable h
  constructor
  · intro heffect
    constructor
    · intro hignored
      obtain ⟨hrefused, hnone⟩ := hinv.refused_of_ignoredOnly hignored priority timestamp
      rw [heffect hrefused] at hnone
      cases hnone
    · intro hfailure
      obtain ⟨hrefused, hnone⟩ := hinv.refused_of_failure hfailure priority timestamp
      rw [heffect hrefused] at hnone
      cases hnone
  · rintro ⟨hignored, hfailure⟩ hrefused
    exact hinv.hasEffect_of_refused hignored hfailure hrefused

/-- While worker 0 evaluates testcase `001`, the submission is invalidated from its
compilation and compiled again by worker 1. -/
def compiledAgain : List ServiceAction :=
  [.connected 0, .connected 1] ++ handOut evaluateOne ++ invalidateOne ++
    [.enqueue compileOne 3 0, .closeSection, .runReady, .runReady, .runReady, .runReady,
      .runReady, .pop, .dispatch 0 0, .runReady, .answer 2 (some []), .takeFlush, .writeResults 0]

/-- The compilation of submission 1 fails at its worker. -/
def compilationFailed : List ServiceAction :=
  [.connected 0] ++ handOut compileOne ++
    [.answer 1 (some [compileOne]), .takeFlush, .writeResults 0]

theorem refusal_has_effect_iff_enqueued :
    ∃ s, (serviceMachine 1).exec (EvaluationService.start 1)
        ([.connected 0] ++ handOut compileOne ++ [.openSection]) = some s ∧
      ((s.enqueueSync compileOne 2 0).1 = false → s.hasEffect compileOne = true) := by
  have hrun : ((serviceMachine 1).exec (EvaluationService.start 1)
      ([.connected 0] ++ handOut compileOne ++ [.openSection])).map
      (fun s => (s.pool.operationsReverse compileOne,
        (s.pool.worker 0).operationsToIgnore, s.resultCache.flushing.length)) =
      some (some 0, [], 0) := by
    decide +kernel
  obtain ⟨s, hs, hvalues⟩ := Option.map_eq_some_iff.1 hrun
  rw [Prod.mk.injEq, Prod.mk.injEq] at hvalues
  obtain ⟨hholder, htoIgnore, hflushing⟩ := hvalues
  have hiff := refusal_has_effect_iff 1 s (Machine.reachable_of_exec rfl hs) compileOne 2 0
  refine ⟨s, hs, hiff.2 ⟨?_, ?_⟩⟩
  · rintro ⟨-, -, -, -, -, shard, hshard, hmem⟩
    rw [hholder, Option.some.injEq] at hshard
    rw [← hshard, htoIgnore] at hmem
    cases hmem
  · rintro ⟨b, hb, -⟩
    rw [List.length_eq_zero_iff.1 hflushing] at hb
    cases hb

/-- Both kinds of dead copy block an enqueue: the evaluation that follows the new
compilation, and the retry of a compilation that failed. -/
theorem enqueue_refused_for_dead_copies :
    (∃ s, (serviceMachine 2).Reachable s ∧ s.lockedBy = some (.writing 0) ∧
      (s.enqueueSync evaluateOne 3 0).1 = false ∧ s.hasEffect evaluateOne = false) ∧
    ∃ s, (serviceMachine 1).Reachable s ∧ s.lockedBy = some (.writing 0) ∧
      (s.enqueueSync compileOne 3 0).1 = false ∧ s.hasEffect compileOne = false := by
  have hrun : ∀ (count : Nat) (labels : List ServiceAction) (op : ESOperation),
      ((serviceMachine count).exec (EvaluationService.start count) labels).map
        (fun s => (s.lockedBy, (s.enqueueSync op 3 0).1, s.hasEffect op)) =
          some (some (.writing 0), false, false) →
      ∃ s, (serviceMachine count).Reachable s ∧ s.lockedBy = some (.writing 0) ∧
        (s.enqueueSync op 3 0).1 = false ∧ s.hasEffect op = false := by
    intro count labels op hvalues
    obtain ⟨s, hs, hvalues⟩ := Option.map_eq_some_iff.1 hvalues
    rw [Prod.mk.injEq, Prod.mk.injEq] at hvalues
    exact ⟨s, Machine.reachable_of_exec rfl hs, hvalues.1, hvalues.2.1, hvalues.2.2⟩
  constructor
  · exact hrun 2 compiledAgain evaluateOne (by decide +kernel)
  · exact hrun 1 compilationFailed compileOne (by decide +kernel)

end Service
end ContestManagement
