import ContestManagement.Service.LiveCopies

/-!
# An invalidation reaches every copy

Once an invalidation has dequeued its operations and discarded their cached
results, no copy of them is live.  Copies enqueued later are new ones, and only
live copies are ever written.
-/

namespace ContestManagement
namespace Service

open Io Lib

namespace EvaluationService

/-- The items of a flush that were not discarded are still in its batch. -/
def Flushed (s : EvaluationService) : Prop :=
  ∀ f ∈ s.flushes, f.phase = .taken → ∀ item ∈ f.items, item.2.ref ∉ s.discarded →
    ∃ b ∈ s.resultCache.flushing, b.1 = f.batch ∧ item ∈ b.2

/-- An invalidation still has to dequeue, or has dequeued, each of its operations. -/
def Covers (s : EvaluationService) : Prop :=
  ∀ todo operations, s.lockedBy = some (.dequeuing todo operations) →
    ∀ op ∈ withTwins operations, op ∈ todo ∨ op ∈ s.dequeuedInSection

/-- What the loop, the executor and the pool leave alone. -/
structure SameSection (s t : EvaluationService) : Prop where
  lockedBy : t.lockedBy = s.lockedBy
  dequeued : t.dequeuedInSection = s.dequeuedInSection
  cache : t.resultCache = s.resultCache
  flushes : t.flushes = s.flushes
  discarded : t.discarded = s.discarded
  written : t.written = s.written
  nextCopy : t.nextCopy = s.nextCopy

theorem sameSection_runReady {s t : EvaluationService} (hstep : s.runReady = some t) :
    SameSection s t := by
  unfold EvaluationService.runReady at hstep
  cases hready : s.ready with
  | nil =>
      rw [hready] at hstep
      cases hstep
  | cons callback rest =>
      rw [hready] at hstep
      cases hstep
      cases callback with
      | push item priority timestamp => exact ⟨rfl, rfl, rfl, rfl, rfl, rfl, rfl⟩
      | dequeue op =>
          obtain ⟨queue, executing, heq, -⟩ := dequeue_spec { s with ready := rest } op
          simp only [runCallback, heq]
          exact ⟨rfl, rfl, rfl, rfl, rfl, rfl, rfl⟩
      | start id => exact ⟨rfl, rfl, rfl, rfl, rfl, rfl, rfl⟩

theorem sameSection_pop {s t : EvaluationService} (hstep : s.pop = some t) : SameSection s t := by
  unfold EvaluationService.pop at hstep
  split_ifs at hstep
  cases hstep
  exact ⟨rfl, rfl, rfl, rfl, rfl, rfl, rfl⟩

theorem sameSection_dispatch {s t : EvaluationService} {pick : Nat} {now : Int}
    (hstep : s.dispatch pick now = some t) : SameSection s t := by
  unfold EvaluationService.dispatch at hstep
  split_ifs at hstep
  split at hstep
  · cases hstep
    exact ⟨rfl, rfl, rfl, rfl, rfl, rfl, rfl⟩
  · cases hstep
    exact ⟨rfl, rfl, rfl, rfl, rfl, rfl, rfl⟩

/-- What one call does to the sections, the flushes and the written results.  The
first case is every call of the loop, the executor and the pool. -/
inductive SectionStep (s t : EvaluationService) : ServiceAction → Prop
  | other {a : ServiceAction} (hsame : SameSection s t) (hclose : a ≠ .closeSection) :
      SectionStep s t a
  | opened {a : ServiceAction} (holder : Section) (hunlocked : s.lockedBy = none)
      (hdequeued : ∀ todo operations, holder = .dequeuing todo operations →
        todo = withTwins operations ∧
          ∃ level submissions datasetId, a = .openInvalidation level submissions datasetId ∧
            operations = getRelevantOperations level submissions datasetId)
      (heq : t = { s with lockedBy := some holder }) : SectionStep s t a
  | dequeued (op : ESOperation) (todo operations : List ESOperation)
      (hlocked : s.lockedBy = some (.dequeuing (op :: todo) operations))
      (heq : t = { s.dequeueAndIgnore op with lockedBy := some (.dequeuing todo operations) }) :
      SectionStep s t .dequeueNext
  | discardedCache (operations : List ESOperation)
      (hlocked : s.lockedBy = some (.dequeuing [] operations))
      (heq : t = { s.discardCachedResults operations with lockedBy := some .enqueuing }) :
      SectionStep s t .discardCached
  | enqueued {a : ServiceAction} (hlocked : ∀ todo operations,
        s.lockedBy ≠ some (.dequeuing todo operations))
      (hlockedBy : t.lockedBy = s.lockedBy) (hcache : t.resultCache = s.resultCache)
      (hflushes : t.flushes = s.flushes) (hdiscarded : t.discarded = s.discarded)
      (hwritten : t.written = s.written) (hclose : a ≠ .closeSection) : SectionStep s t a
  | closed (hlocked : t.lockedBy = none) (hcache : t.resultCache = s.resultCache)
      (hflushes : ∀ f ∈ t.flushes, f.phase = .taken → f ∈ s.flushes)
      (hdiscarded : t.discarded = s.discarded) (hwritten : t.written = s.written) :
      SectionStep s t .closeSection
  | answered {a : ServiceAction} (hunlocked : s.lockedBy = none) (hlockedBy : t.lockedBy = none)
      (hflushing : t.resultCache.flushing = s.resultCache.flushing)
      (hflushes : t.flushes = s.flushes) (hdiscarded : t.discarded = s.discarded)
      (hwritten : t.written = s.written) : SectionStep s t a
  | took {a : ServiceAction} (heq : t = s.takeFlush) (hclose : a ≠ .closeSection) :
      SectionStep s t a
  | wrote {a : ServiceAction} (f : Flush) (hunlocked : s.lockedBy = none) (hf : f ∈ s.flushes)
      (hphase : f.phase = .taken)
      (hlockedBy : ∀ todo operations, t.lockedBy ≠ some (.dequeuing todo operations))
      (hcache : t.resultCache = s.resultCache)
      (hflushes : ∀ f ∈ t.flushes, f.phase = .taken → f ∈ s.flushes)
      (hdiscarded : t.discarded = s.discarded)
      (hwritten : t.written = s.written ++ f.items.filter fun item => item.2.ref ∉ s.discarded) :
      SectionStep s t a
  | ended {a : ServiceAction} (batch : Nat)
      (hlockedBy : t.lockedBy = s.lockedBy)
      (hdequeued : t.dequeuedInSection = s.dequeuedInSection)
      (hcache : t.resultCache = s.resultCache.dropBatch batch)
      (hflushes : t.flushes = s.flushes.filter fun f => f.batch ≠ batch)
      (hdiscarded : t.discarded = s.discarded) (hwritten : t.written = s.written)
      (hnext : t.nextCopy = s.nextCopy) (hclose : a ≠ .closeSection) : SectionStep s t a

/-- The flushes after one of them has moved on are older ones, when taken. -/
theorem mem_flushes_of_taken {flushes : List Flush} {batch : Nat} {phase : FlushPhase}
    (hphase : phase ≠ .taken) {f : Flush}
    (hf : f ∈ flushes.map fun f => if f.batch = batch then { f with phase := phase } else f)
    (htaken : f.phase = .taken) : f ∈ flushes := by
  obtain ⟨old, hold, rfl⟩ := List.mem_map.1 hf
  by_cases hbatch : old.batch = batch
  · rw [if_pos hbatch] at htaken
    exact absurd htaken hphase
  · rw [if_neg hbatch]
    exact hold

theorem sectionStep_closeSection {s t : EvaluationService} (hstep : s.closeSection = some t) :
    SectionStep s t .closeSection := by
  unfold EvaluationService.closeSection at hstep
  cases hlocked : s.lockedBy with
  | none => simp [hlocked] at hstep
  | some holder =>
      simp only [hlocked] at hstep
      cases holder with
      | enqueuing =>
          simp only [Option.some.injEq] at hstep
          subst hstep
          exact .closed rfl rfl (fun _ hf _ => hf) rfl rfl
      | dequeuing todo operations =>
          simp only [Option.some.injEq] at hstep
          subst hstep
          exact .closed rfl rfl (fun _ hf _ => hf) rfl rfl
      | writing batch =>
          simp only [Option.some.injEq] at hstep
          subst hstep
          exact .closed rfl rfl (fun _ hf htaken => mem_flushes_of_taken (by simp) hf htaken)
            rfl rfl

theorem sectionStep_answer {s t : EvaluationService} (h : s.Inv) {id : Nat}
    {failed : Option (List ESOperation)} (hstep : s.answer id failed = some t) :
    SectionStep s t (.answer id failed) := by
  obtain ⟨hlocked, d, -, -, -, hcases⟩ := answer_cases h.assigned hstep
  rcases hcases with ⟨-, rfl⟩ | ⟨sl, q, -, -, -, rfl | ⟨failed, rfl⟩⟩
  · exact .answered hlocked hlocked rfl rfl rfl rfl
  · exact .answered hlocked hlocked rfl rfl rfl rfl
  · obtain ⟨cache, ref, heq, hflushing, -⟩ := cacheResults_spec { s with
      dispatches := s.dispatches.filter fun d => d.id ≠ id, pool := q } sl.toIgnore failed d.items
    rw [heq]
    exact .answered hlocked hlocked hflushing rfl rfl rfl

theorem sectionStep_enqueue {s : EvaluationService} (h : s.Inv) {op : ESOperation}
    {priority timestamp : Int} (hlocked : ∀ todo operations,
      s.lockedBy ≠ some (.dequeuing todo operations)) :
    SectionStep s (s.enqueueSync op priority timestamp).2 (.enqueue op priority timestamp) := by
  rcases h.enqueueSync_cases op priority timestamp with heq | ⟨heq, -⟩
  · rw [heq]
    exact .enqueued hlocked rfl rfl rfl rfl rfl (by simp)
  · rw [heq]
    exact .enqueued hlocked rfl rfl rfl rfl rfl (by simp)

/-- Every call is of one of these kinds. -/
theorem sectionStep_of_step {s t : EvaluationService} (h : s.Inv) {a : ServiceAction}
    (hstep : s.step a = some t) : SectionStep s t a := by
  cases a with
  | openSection =>
      simp only [EvaluationService.step, Option.ite_none_right_eq_some, Option.some.injEq] at hstep
      obtain ⟨hunlocked, rfl⟩ := hstep
      exact .opened .enqueuing hunlocked (by simp) rfl
  | openInvalidation level submissions datasetId =>
      simp only [EvaluationService.step, Option.ite_none_right_eq_some, Option.some.injEq] at hstep
      obtain ⟨hunlocked, rfl⟩ := hstep
      refine .opened _ hunlocked ?_ rfl
      intro todo operations heq
      rw [Section.dequeuing.injEq] at heq
      exact ⟨by rw [← heq.1, ← heq.2], level, submissions, datasetId, rfl, heq.2.symm⟩
  | dequeueNext =>
      simp only [EvaluationService.step] at hstep
      split at hstep
      · rename_i op todo operations hlocked
        cases hstep
        exact .dequeued op todo operations hlocked rfl
      · cases hstep
  | discardCached =>
      simp only [EvaluationService.step] at hstep
      split at hstep
      · rename_i operations hlocked
        cases hstep
        exact .discardedCache operations hlocked rfl
      · cases hstep
  | enqueue op priority timestamp =>
      simp only [EvaluationService.step] at hstep
      split at hstep
      · rename_i hlocked
        cases hstep
        exact sectionStep_enqueue h (by simp [hlocked])
      · rename_i batch hlocked
        cases hstep
        exact sectionStep_enqueue h (by simp [hlocked])
      · cases hstep
  | closeSection => exact sectionStep_closeSection hstep
  | runReady => exact .other (sameSection_runReady hstep) (by simp)
  | pop => exact .other (sameSection_pop hstep) (by simp)
  | dispatch pick now => exact .other (sameSection_dispatch hstep) (by simp)
  | answer id failed => exact sectionStep_answer h hstep
  | takeFlush =>
      cases hstep
      exact .took rfl (by simp)
  | writeResults batch =>
      simp only [EvaluationService.step, EvaluationService.writeResults] at hstep
      split_ifs at hstep with hunlocked
      split at hstep
      · cases hstep
      · rename_i f hfind
        have hcond := List.find?_some hfind
        simp only [decide_eq_true_eq] at hcond
        cases hstep
        exact .wrote f hunlocked (List.mem_of_find?_eq_some hfind) hcond.2 (by simp) rfl
          (fun _ hf htaken => mem_flushes_of_taken (by simp) hf htaken) rfl rfl
  | endFlush batch =>
      simp only [EvaluationService.step, EvaluationService.endFlush] at hstep
      split at hstep
      · cases hstep
        exact .ended batch rfl rfl rfl rfl rfl rfl rfl (by simp)
      · cases hstep
  | setTimeout shard id timeout now =>
      cases hstep
      exact .other ⟨rfl, rfl, rfl, rfl, rfl, rfl, rfl⟩ (by simp)
  | markAnswered shard id now =>
      cases hstep
      exact .other ⟨rfl, rfl, rfl, rfl, rfl, rfl, rfl⟩ (by simp)
  | checkTimeouts now =>
      cases hstep
      exact .other ⟨rfl, rfl, rfl, rfl, rfl, rfl, rfl⟩ (by simp)
  | checkConnections =>
      cases hstep
      exact .other ⟨rfl, rfl, rfl, rfl, rfl, rfl, rfl⟩ (by simp)
  | disableWorker shard =>
      cases hstep
      exact .other ⟨rfl, rfl, rfl, rfl, rfl, rfl, rfl⟩ (by simp)
  | enableWorker shard =>
      cases hstep
      exact .other ⟨rfl, rfl, rfl, rfl, rfl, rfl, rfl⟩ (by simp)
  | connected shard =>
      simp only [EvaluationService.step, Option.ite_none_right_eq_some, Option.some.injEq] at hstep
      obtain ⟨-, rfl⟩ := hstep
      exact .other ⟨rfl, rfl, rfl, rfl, rfl, rfl, rfl⟩ (by simp)
  | disconnected shard =>
      simp only [EvaluationService.step, Option.ite_none_right_eq_some, Option.some.injEq] at hstep
      obtain ⟨-, rfl⟩ := hstep
      exact .other ⟨rfl, rfl, rfl, rfl, rfl, rfl, rfl⟩ (by simp)

/-! ### What the steps keep -/

/-- The values that `discard` returns are the ones it removes. -/
theorem mem_discard {cache : FlushingDict ESOperation Result} (predicate : ESOperation → Bool)
    {b : Nat × List (ESOperation × Result)} (hb : b ∈ cache.flushing)
    {item : ESOperation × Result} (hitem : item ∈ b.2) :
    (predicate item.1 = true ∧ item.2 ∈ (cache.discard predicate).1) ∨
      ∃ b' ∈ (cache.discard predicate).2.flushing, b'.1 = b.1 ∧ item ∈ b'.2 := by
  cases hpred : predicate item.1 with
  | true =>
      left
      refine ⟨rfl, List.mem_flatMap.2 ⟨b.2, ?_, ?_⟩⟩
      · exact List.mem_cons_of_mem _ (List.mem_map_of_mem hb)
      · exact List.mem_map_of_mem (List.mem_filter.2 ⟨hitem, hpred⟩)
  | false =>
      right
      refine ⟨_, List.mem_map_of_mem hb, rfl, ?_⟩
      exact List.mem_filter.2 ⟨hitem, by simp [hpred]⟩

theorem Flushed.step {s t : EvaluationService} (h : s.Flushed) {a : ServiceAction}
    (hstep : SectionStep s t a) : t.Flushed := by
  cases hstep with
  | other hsame hclose =>
      intro f hf
      rw [hsame.flushes] at hf
      rw [hsame.discarded, hsame.cache]
      exact h f hf
  | opened holder hunlocked hdequeued heq =>
      subst heq
      exact h
  | dequeued op todo operations hlocked heq =>
      subst heq
      exact h
  | discardedCache operations hlocked heq =>
      subst heq
      intro f hf htaken item hitem hdiscarded
      have hold : item.2.ref ∉ s.discarded := by
        intro hmem
        exact hdiscarded (List.mem_append_left _ hmem)
      obtain ⟨b, hb, hbatch, hmem⟩ := h f hf htaken item hitem hold
      rcases mem_discard (fun op => op.key ∈ operations.map ESOperation.key)
        hb hmem with ⟨-, hremoved⟩ | ⟨b', hb', hid, hmem'⟩
      · exact absurd (List.mem_append_right _ (List.mem_map_of_mem hremoved)) hdiscarded
      · exact ⟨b', hb', hid.trans hbatch, hmem'⟩
  | enqueued hlocked hlockedBy hcache hflushes hdiscarded hwritten hclose =>
      intro f hf
      rw [hflushes] at hf
      rw [hdiscarded, hcache]
      exact h f hf
  | closed hlocked hcache hflushes hdiscarded hwritten =>
      intro f hf htaken
      rw [hdiscarded, hcache]
      exact h f (hflushes f hf htaken) htaken
  | answered hunlocked hlockedBy hflushing hflushes hdiscarded hwritten =>
      intro f hf
      rw [hflushes] at hf
      rw [hdiscarded, hflushing]
      exact h f hf
  | took heq hclose =>
      subst heq
      intro f hf htaken item hitem hdiscarded
      rcases List.mem_append.1 hf with hf | hf
      · obtain ⟨b, hb, hrest⟩ := h f hf htaken item hitem hdiscarded
        exact ⟨b, List.mem_append_left _ hb, hrest⟩
      · rw [List.mem_singleton] at hf
        subst hf
        exact ⟨_, List.mem_append_right _ (List.mem_singleton_self _), rfl, hitem⟩
  | wrote f hunlocked hf hphase hlockedBy hcache hflushes hdiscarded hwritten =>
      intro f hf htaken
      rw [hdiscarded, hcache]
      exact h f (hflushes f hf htaken) htaken
  | ended batch hlockedBy hdequeued hcache hflushes hdiscarded hwritten hnext hclose =>
      intro f hf htaken item hitem hkept
      rw [hflushes, List.mem_filter] at hf
      rw [hdiscarded] at hkept
      obtain ⟨b, hb, hbatch, hmem⟩ := h f hf.1 htaken item hitem hkept
      rw [hcache]
      refine ⟨b, List.mem_filter.2 ⟨hb, ?_⟩, hbatch, hmem⟩
      rw [hbatch]
      exact hf.2

theorem Covers.step {s t : EvaluationService} (h : s.Covers) {a : ServiceAction}
    (hstep : SectionStep s t a) : t.Covers := by
  cases hstep with
  | other hsame hclose =>
      intro todo operations hlocked
      rw [hsame.lockedBy] at hlocked
      rw [hsame.dequeued]
      exact h todo operations hlocked
  | opened holder hunlocked hdequeued heq =>
      subst heq
      intro todo operations hlocked op hop
      obtain ⟨htodo, -⟩ := hdequeued todo operations (Option.some.inj hlocked)
      exact .inl (htodo ▸ hop)
  | dequeued op todo operations hlocked heq =>
      subst heq
      intro todo' operations' hlocked' other hother
      obtain ⟨rfl, rfl⟩ := Section.dequeuing.inj (Option.some.inj hlocked')
      rcases h _ _ hlocked other hother with hmem | hmem
      · rcases List.mem_cons.1 hmem with rfl | hmem
        · exact .inr (List.mem_append_right _ (List.mem_singleton_self _))
        · exact .inl hmem
      · exact .inr (List.mem_append_left _ hmem)
  | discardedCache operations hlocked heq =>
      subst heq
      intro todo' operations' hlocked'
      cases hlocked'
  | enqueued hlocked hlockedBy hcache hflushes hdiscarded hwritten hclose =>
      intro todo operations hlocked'
      rw [hlockedBy] at hlocked'
      exact absurd hlocked' (hlocked todo operations)
  | closed hlocked hcache hflushes hdiscarded hwritten =>
      intro todo operations hlocked'
      rw [hlocked] at hlocked'
      cases hlocked'
  | answered hunlocked hlockedBy hflushing hflushes hdiscarded hwritten =>
      intro todo operations hlocked'
      rw [hlockedBy] at hlocked'
      cases hlocked'
  | took heq hclose =>
      subst heq
      exact h
  | wrote f hunlocked hf hphase hlockedBy hcache hflushes hdiscarded hwritten =>
      intro todo operations hlocked'
      exact absurd hlocked' (hlockedBy todo operations)
  | ended batch hlockedBy hdequeued hcache hflushes hdiscarded hwritten hnext hclose =>
      intro todo operations hlocked'
      rw [hlockedBy] at hlocked'
      rw [hdequeued]
      exact h todo operations hlocked'

/-- Only live copies are written. -/
theorem written_step {s t : EvaluationService} (hflushed : s.Flushed) {a : ServiceAction}
    (hstep : SectionStep s t a) :
    ∃ new, t.written = s.written ++ new ∧
      ∀ item ∈ new, item.2.copy ∈ (s.ledger item.1).live := by
  have hnone : t.written = s.written → ∃ new, t.written = s.written ++ new ∧
      ∀ item ∈ new, item.2.copy ∈ (s.ledger item.1).live := by
    intro heq
    exact ⟨[], by simp [heq], by simp⟩
  cases hstep with
  | other hsame hclose => exact hnone hsame.written
  | opened holder hunlocked hdequeued heq => exact hnone (by rw [heq])
  | dequeued op todo operations hlocked heq => exact hnone (by rw [heq]; rfl)
  | discardedCache operations hlocked heq => exact hnone (by rw [heq]; rfl)
  | enqueued hlocked hlockedBy hcache hflushes hdiscarded hwritten hclose => exact hnone hwritten
  | closed hlocked hcache hflushes hdiscarded hwritten => exact hnone hwritten
  | answered hunlocked hlockedBy hflushing hflushes hdiscarded hwritten => exact hnone hwritten
  | took heq hclose => exact hnone (by rw [heq]; rfl)
  | ended batch hlockedBy hdequeued hcache hflushes hdiscarded hwritten hnext hclose =>
      exact hnone hwritten
  | wrote f hunlocked hf hphase hlockedBy hcache hflushes hdiscarded hwritten =>
      refine ⟨_, hwritten, ?_⟩
      intro item hitem
      obtain ⟨hmem, hkept⟩ := List.mem_filter.1 hitem
      simp only [decide_eq_true_eq] at hkept
      obtain ⟨b, hb, -, hentry⟩ := hflushed f hf hphase item hmem hkept
      have hcached : item.2.copy ∈ s.copiesCached item.1 := by
        have hentries : item ∈ s.resultCache.entries :=
          List.mem_append_right _ (List.mem_flatMap.2 ⟨b, hb, hentry⟩)
        refine List.mem_map.2 ⟨⟨item.1, item.2.copy⟩, List.mem_filter.2 ⟨?_, by simp⟩, rfl⟩
        exact List.mem_map_of_mem (f := fun entry : ESOperation × Result =>
          (⟨entry.1, entry.2.copy⟩ : Queued)) hentries
      exact Multiset.mem_add.2 (.inr hcached)

/-! ### Runs -/

/-- The invariant with the parts about flushes and invalidations. -/
structure FullInv (s : EvaluationService) : Prop where
  inv : s.Inv
  flushed : s.Flushed
  covers : s.Covers

theorem FullInv.step {s t : EvaluationService} (h : s.FullInv) {a : ServiceAction}
    (hstep : s.step a = some t) : t.FullInv where
  inv := (h.inv.step hstep).inv
  flushed := h.flushed.step (sectionStep_of_step h.inv hstep)
  covers := h.covers.step (sectionStep_of_step h.inv hstep)

theorem fullInv_of_reachable {count : Nat} {s : EvaluationService}
    (h : (serviceMachine count).Reachable s) : s.FullInv := by
  refine h.invariant ?_ (fun _ _ _ hs hstep => hs.step hstep)
  intro s hs
  have heq : s = start count := hs
  subst heq
  refine ⟨inv_start count, ?_, ?_⟩
  · intro f hf
    cases hf
  · intro todo operations hlocked
    cases hlocked

/-- Every live copy of a matching operation is at least `bound`. -/
structure Purged (matching : ESOperation → Prop) (bound : Nat) (s : EvaluationService) : Prop where
  full : s.FullInv
  bound_le : bound ≤ s.nextCopy
  live : ∀ op, matching op → ∀ copy ∈ (s.ledger op).live, bound ≤ copy

theorem Purged.step {matching : ESOperation → Prop} {bound : Nat} {s t : EvaluationService}
    (h : Purged matching bound s) {a : ServiceAction} (hstep : s.step a = some t) :
    Purged matching bound t where
  full := h.full.step hstep
  bound_le := h.bound_le.trans (h.full.inv.step hstep).nextCopy_le
  live := by
    intro op hop
    refine ((h.full.inv.step hstep).moves op).live_all (h.live op hop) ?_
    intro copy hcopy
    exact h.bound_le.trans hcopy

/-- Right after an invalidation has discarded the cached results, the operations it
matches have no live copy. -/
theorem live_of_discarded {s t : EvaluationService} (h : s.FullInv)
    {operations : List ESOperation} (hlocked : s.lockedBy = some (.dequeuing [] operations))
    (heq : t = { s.discardCachedResults operations with lockedBy := some .enqueuing })
    {op : ESOperation} (hop : op ∈ withTwins operations) : (t.ledger op).live = 0 := by
  subst heq
  have hdequeued : op ∈ s.dequeuedInSection := by
    rcases h.covers _ _ hlocked op hop with hmem | hmem
    · cases hmem
    · exact hmem
  have hcleared := h.inv.cleared op hdequeued
  have hbuffer := h.inv.scheduled.dequeuing _ _ hlocked
  have hkey : op.key ∈ operations.map ESOperation.key := by
    obtain ⟨plain, hplain, hmem⟩ := List.mem_flatMap.1 hop
    refine List.mem_map.2 ⟨plain, hplain, ?_⟩
    rcases List.mem_cons.1 hmem with rfl | hmem
    · rfl
    · rw [List.mem_singleton.1 hmem]
      rfl
  have hcached : copiesCached { s.discardCachedResults operations with
      lockedBy := some .enqueuing } op = [] := by
    rw [copiesCached, copiesOf_eq_nil]
    rintro item hitem rfl
    obtain ⟨entry, hentry, rfl⟩ := List.mem_map.1 hitem
    have hgone : ∀ mapping : List (ESOperation × Result),
        entry ∉ mapping.filter fun kv => !decide (kv.1.key ∈ operations.map ESOperation.key) := by
      intro mapping hmem
      have hcond := (List.mem_filter.1 hmem).2
      simp only [Bool.not_eq_true', decide_eq_false_iff_not] at hcond
      exact hcond hkey
    rcases List.mem_append.1 hentry with hentry | hentry
    · exact hgone _ hentry
    · obtain ⟨b, hb, hmem⟩ := List.mem_flatMap.1 hentry
      obtain ⟨old, -, rfl⟩ := List.mem_map.1 hb
      exact hgone _ hmem
  have hsurvivors : Act.survivors (s.ledger op).held (s.ledger op).pending = 0 := by
    rw [Ledger.pending, show (s.ledger op).buffered = actsOn op s.loopActions from rfl, hbuffer,
      actsOn_nil, List.append_nil]
    exact hcleared
  show Act.survivors (s.ledger op).held (s.ledger op).pending +
    (copiesCached { s.discardCachedResults operations with
      lockedBy := some .enqueuing } op : Multiset Nat) = 0
  rw [hsurvivors, hcached]
  rfl

/-- The state of an invalidation between its start and its discarding of the cached
results, or after it. -/
def Invalidating (operations : List ESOperation) (next : Nat) (s : EvaluationService) : Prop :=
  (∃ todo, s.lockedBy = some (.dequeuing todo operations) ∧ s.nextCopy = next) ∨
    s.lockedBy = some .enqueuing

theorem Invalidating.step {operations : List ESOperation} {next : Nat} {s t : EvaluationService}
    (h : s.Invalidating operations next) {a : ServiceAction} (hclose : a ≠ .closeSection)
    (hstep : SectionStep s t a) : t.Invalidating operations next := by
  have hlocked : s.lockedBy ≠ none := by
    rcases h with ⟨todo, hlocked, -⟩ | hlocked
    · simp [hlocked]
    · simp [hlocked]
  cases hstep with
  | other hsame hclose =>
      unfold Invalidating
      rw [hsame.lockedBy, hsame.nextCopy]
      exact h
  | opened holder hunlocked hdequeued heq => exact absurd hunlocked hlocked
  | dequeued op todo operations' hdequeuing heq =>
      subst heq
      rcases h with ⟨todo', hlocked', hnext⟩ | hlocked'
      · rw [hdequeuing, Option.some.injEq, Section.dequeuing.injEq] at hlocked'
        rw [hlocked'.2]
        exact .inl ⟨todo, rfl, hnext⟩
      · rw [hdequeuing] at hlocked'
        cases hlocked'
  | discardedCache operations' hdequeuing heq =>
      subst heq
      exact .inr rfl
  | enqueued hnot hlockedBy hcache hflushes hdiscarded hwritten hclose =>
      rcases h with ⟨todo, hlocked', -⟩ | hlocked'
      · exact absurd hlocked' (hnot todo operations)
      · exact .inr (hlockedBy.trans hlocked')
  | closed => exact absurd rfl hclose
  | answered hunlocked => exact absurd hunlocked hlocked
  | took heq hclose =>
      subst heq
      exact h
  | wrote f hunlocked => exact absurd hunlocked hlocked
  | ended batch hlockedBy hdequeued hcache hflushes hdiscarded hwritten hnext hclose =>
      unfold Invalidating
      rw [hlockedBy, hnext]
      exact h

end EvaluationService

/-- Let an invalidation start in `s`, dequeue its operations until `u` (other steps
may happen meanwhile) and discard their cached results.  Whatever is written from
then on for an operation that matches the invalidation belongs to a copy that was
enqueued after the invalidation started. -/
theorem invalidated_results_not_written (count : Nat) (s s' u v w : EvaluationService)
    (level : Level) (submissions : List JudgedSubmission) (datasetId : Option Nat)
    (hs : (serviceMachine count).Reachable s)
    (hopen : s.step (.openInvalidation level submissions datasetId) = some s')
    (hsection : (serviceMachine count).Path (fun _ a => a ≠ .closeSection) s' u)
    (hdiscard : u.step .discardCached = some v)
    (hlater : (serviceMachine count).Path (fun _ _ => True) v w) :
    ∃ new, w.written = v.written ++ new ∧
      ∀ item ∈ new, Invalidates level submissions datasetId item.1 → s.nextCopy ≤ item.2.copy := by
  have hfull' := (EvaluationService.fullInv_of_reachable hs).step hopen
  have hstart : s'.Invalidating (getRelevantOperations level submissions datasetId)
      s.nextCopy := by
    simp only [EvaluationService.step, Option.ite_none_right_eq_some, Option.some.injEq] at hopen
    obtain ⟨-, rfl⟩ := hopen
    exact .inl ⟨_, rfl, rfl⟩
  -- Up to `u` the section is still the one that was opened.
  have hu : u.FullInv ∧ u.Invalidating (getRelevantOperations level submissions datasetId)
      s.nextCopy := by
    refine hsection.preserves (I := fun x => x.FullInv ∧ x.Invalidating
      (getRelevantOperations level submissions datasetId) s.nextCopy) ?_ ⟨hfull', hstart⟩
    intro x a y hx hclose hmove
    exact ⟨hx.1.step hmove,
      hx.2.step hclose (EvaluationService.sectionStep_of_step hx.1.inv hmove)⟩
  have hv : EvaluationService.Purged (Invalidates level submissions datasetId) s.nextCopy v := by
    have hdiscard' := hdiscard
    simp only [EvaluationService.step] at hdiscard'
    split at hdiscard'
    · rename_i operations hlocked
      cases hdiscard'
      rcases hu.2 with ⟨todo, hlocked', hnext⟩ | hlocked'
      · rw [hlocked, Option.some.injEq, Section.dequeuing.injEq] at hlocked'
        obtain ⟨-, rfl⟩ := hlocked'
        refine ⟨hu.1.step hdiscard, le_of_eq hnext.symm, ?_⟩
        intro op hop copy hcopy
        rw [EvaluationService.live_of_discarded hu.1 hlocked rfl
          (mem_withTwins_of_invalidates hop)] at hcopy
        cases hcopy
      · rw [hlocked] at hlocked'
        cases hlocked'
    · cases hdiscard'
  have hw : EvaluationService.Purged (Invalidates level submissions datasetId) s.nextCopy w ∧
      ∃ new, w.written = v.written ++ new ∧ ∀ item ∈ new,
        Invalidates level submissions datasetId item.1 → s.nextCopy ≤ item.2.copy := by
    refine hlater.preserves (I := fun x =>
      EvaluationService.Purged (Invalidates level submissions datasetId) s.nextCopy x ∧
      ∃ new, x.written = v.written ++ new ∧ ∀ item ∈ new,
        Invalidates level submissions datasetId item.1 → s.nextCopy ≤ item.2.copy) ?_
      ⟨hv, [], by simp, by simp⟩
    rintro x a y ⟨hx, new, hwritten, hnew⟩ - hmove
    refine ⟨hx.step hmove, ?_⟩
    obtain ⟨more, hmore, hlive⟩ := EvaluationService.written_step hx.full.flushed
      (EvaluationService.sectionStep_of_step hx.full.inv hmove)
    refine ⟨new ++ more, by rw [hmore, hwritten, List.append_assoc], ?_⟩
    intro item hitem hmatches
    rcases List.mem_append.1 hitem with hitem | hitem
    · exact hnew item hitem hmatches
    · exact hx.live item.1 hmatches _ (hlive item hitem)
  exact hw.2

/-- The invalidated evaluation answers too late, and is then handed out again. -/
def evaluatedAgain : List ServiceAction :=
  [.enqueue evaluateOne 3 0, .closeSection, .answer 1 (some []), .runReady, .runReady, .runReady,
    .runReady, .runReady, .pop, .dispatch 0 0, .runReady, .answer 2 (some []), .takeFlush,
    .writeResults 0]

theorem invalidated_results_not_written_evaluatedAgain :
    ∃ s v w : EvaluationService, s.liveCopies evaluateOne = [0] ∧ s.nextCopy = 1 ∧
      v.written = [] ∧ w.written = [(evaluateOne, ⟨0, true, 1⟩)] ∧
      ∃ new, w.written = v.written ++ new ∧ ∀ item ∈ new,
        Invalidates .compilation [⟨1, [⟨1, ["001"]⟩]⟩] none item.1 → s.nextCopy ≤ item.2.copy := by
  have hbefore : ((serviceMachine 1).exec (EvaluationService.start 1)
      ([.connected 0] ++ handOut evaluateOne)).map
      (fun s => (s.liveCopies evaluateOne, s.nextCopy)) = some ([0], 1) := by
    decide +kernel
  have hpurged : ((serviceMachine 1).exec (EvaluationService.start 1)
      ([.connected 0] ++ handOut evaluateOne ++ invalidateOne)).map
      EvaluationService.written = some [] := by
    decide +kernel
  have hrun : ((serviceMachine 1).exec (EvaluationService.start 1)
      ([.connected 0] ++ handOut evaluateOne ++ invalidateOne ++ evaluatedAgain)).map
      EvaluationService.written = some [(evaluateOne, ⟨0, true, 1⟩)] := by
    decide +kernel
  obtain ⟨w, hw, hwritten⟩ := Option.map_eq_some_iff.1 hrun
  obtain ⟨v, hv, hlater⟩ := Machine.exec_append hw
  obtain ⟨s, hs, hsection⟩ := Machine.exec_append hv
  rw [hs, Option.map_some, Option.some.injEq, Prod.mk.injEq] at hbefore
  rw [hv, Option.map_some, Option.some.injEq] at hpurged
  rw [invalidateOne, ← List.singleton_append] at hsection
  obtain ⟨s', hopen, hsection⟩ := Machine.exec_append hsection
  rw [show [ServiceAction.dequeueNext, .dequeueNext, .dequeueNext, .dequeueNext, .discardCached] =
    List.replicate 4 .dequeueNext ++ [.discardCached] from rfl] at hsection
  obtain ⟨u, hdequeued, hdiscard⟩ := Machine.exec_append hsection
  have hkept : (serviceMachine 1).Path (fun _ a => a ≠ .closeSection) s' u := by
    refine Machine.path_of_exec ?_ hdequeued
    intro a ha x
    rw [List.eq_of_mem_replicate ha]
    decide
  exact ⟨s, v, w, hbefore.1, hbefore.2, hpurged, hwritten,
    invalidated_results_not_written 1 s s' u v w _ _ _ (Machine.reachable_of_exec rfl hs)
      (Machine.exec_singleton hopen) hkept (Machine.exec_singleton hdiscard)
      (Machine.path_of_exec (fun _ _ _ => trivial) hlater)⟩

end Service
end ContestManagement
