import ContestManagement.Lib.Machine
import ContestManagement.Service.WorkerPoolInvariants

/-!
# Runs of the worker pool

The pool as a state machine: any interleaving of acquisitions, answers, clock
updates, ignore marks, recoveries, operator commands and connection changes.
Next to the pool the state records which dispatches were accepted when they were
answered, and which ones a recovery took back from their worker.
-/

namespace ContestManagement
namespace Service

open Lib

variable {Op : Type}

/-- A call of the pool, or a change of a worker's connection. -/
inductive PoolAction (Op : Type) where
  | acquire (operations : List Op) (pick : Nat) (now : Int)
  | setTimeout (shard : Nat) (dispatchId : Option Nat) (timeout now : Int)
  | markAnswered (shard : Nat) (dispatchId : Option Nat) (now : Int)
  | answer (shard : Nat) (dispatchId : Option Nat)
  | ignoreOperation (operation : Op)
  | checkTimeouts (now : Int)
  | checkConnections
  | disable (shard : Nat)
  | enable (shard : Nat)
  | connected (shard : Nat)
  | disconnected (shard : Nat)
  deriving DecidableEq, Repr

/-- The pool with the history of its dispatches. -/
structure PoolState (Op : Type) where
  pool : WorkerPool Op
  /-- The dispatches whose answer `release_worker` did not report as to be ignored. -/
  accepted : List Nat
  /-- The dispatches that a recovery took back from their worker. -/
  lost : List Nat

/-- Whether the result of `release_worker` is used, at least in part. -/
def Release.accepts : Except PoolError (Release Op) → Bool
  | .ok (.verdict ignored) => !ignored
  | .ok (.partly _) => true
  | .error _ => false

namespace WorkerPool

/-- The dispatches current in `p` whose shard has no dispatch any more in `q`. -/
def takenBack (p q : WorkerPool Op) : List Nat :=
  p.shards.filterMap fun shard =>
    if (q.worker shard).currentDispatch = none then (p.worker shard).currentDispatch else none

/-- The operation was in a job group of `p` whose dispatch is taken back in `q`. -/
def LostWith (p q : WorkerPool Op) (op : Op) : Prop :=
  ∃ shard ops d, (p.worker shard).operations = .busy ops ∧ op ∈ ops ∧
    (p.worker shard).currentDispatch = some d ∧ d ∈ p.takenBack q

end WorkerPool

variable [DecidableEq Op]

namespace PoolState

/-- Record a recovery that leaves the pool `q`. -/
def recover (s : PoolState Op) (q : WorkerPool Op) : PoolState Op :=
  { s with pool := q, lost := s.lost ++ s.pool.takenBack q }

/-- Record an answer. -/
def answer (s : PoolState Op) (shard : Nat) (dispatchId : Option Nat) : PoolState Op :=
  let r := s.pool.releaseWorker shard dispatchId
  { s with
    pool := r.2
    accepted :=
      if Release.accepts r.1 then s.accepted ++ ((s.pool.worker shard).currentDispatch).toList
      else s.accepted }

/-- One call.  A call that raises leaves what it wrote before it raised. -/
def step (s : PoolState Op) : PoolAction Op → Option (PoolState Op)
  | .acquire ops pick now => some { s with pool := (s.pool.acquireWorker ops pick now).2 }
  | .setTimeout shard d timeout now =>
      some { s with pool := s.pool.setTimeout shard d timeout now }
  | .markAnswered shard d now => some { s with pool := s.pool.markAnswered shard d now }
  | .answer shard d => some (s.answer shard d)
  | .ignoreOperation op => some { s with pool := (s.pool.ignoreOperation op).2 }
  | .checkTimeouts now => some (s.recover (s.pool.checkTimeouts now).2)
  | .checkConnections => some (s.recover s.pool.checkConnections.2)
  | .disable shard => some (s.recover (s.pool.disableWorker shard).2)
  | .enable shard => some { s with pool := (s.pool.enableWorker shard).2 }
  | .connected shard =>
      if shard ∈ s.pool.shards then some { s with pool := s.pool.onWorkerConnected shard }
      else none
  | .disconnected shard =>
      if shard ∈ s.pool.shards then some { s with pool := s.pool.onWorkerDisconnected shard }
      else none

/-- The pool EvaluationService starts with. -/
def start (Op : Type) (count : Nat) : PoolState Op :=
  ⟨WorkerPool.withWorkers Op count, [], []⟩

end PoolState

/-- The pool of `count` workers. -/
def poolMachine (Op : Type) [DecidableEq Op] (count : Nat) :
    Machine (PoolState Op) (PoolAction Op) where
  init := fun s => s = PoolState.start Op count
  step := PoolState.step

namespace PoolState

/-- A dispatch is over: it was given out and no shard is working on it. -/
def Over (r : Roster Op) (d : Nat) : Prop :=
  d ≤ r.last ∧ ∀ shard sl, r.slot shard = some sl → sl.dispatch ≠ d

/-- The invariant of the runs. -/
structure Inv (s : PoolState Op) : Prop where
  sound : s.pool.Sound
  accepted_over : ∀ d ∈ s.accepted, Over s.pool.roster d
  lost_over : ∀ d ∈ s.lost, Over s.pool.roster d
  accepted_nodup : s.accepted.Nodup
  disjoint : ∀ d ∈ s.accepted, d ∉ s.lost

omit [DecidableEq Op] in
theorem Over.free {r : Roster Op} {d : Nat} (h : Over r d) (shards : List Nat) :
    Over (r.free shards) d := by
  refine ⟨h.1, ?_⟩
  intro shard sl hslot
  exact h.2 shard sl (Roster.slot_free_eq_some.1 hslot).2

omit [DecidableEq Op] in
theorem Over.ignore {r : Roster Op} {d : Nat} (h : Over r d) (op : Op) (shard : Nat) :
    Over (r.ignore op shard) d := by
  refine ⟨h.1, ?_⟩
  intro s sl hslot
  obtain ⟨old, hold, hdispatch, -⟩ := Roster.slot_of_ignore hslot
  exact hdispatch ▸ h.2 s old hold

theorem Over.assign {r : Roster Op} {d : Nat} (h : Over r d) (shard : Nat) (ops : List Op) :
    Over (r.assign shard ops) d := by
  refine ⟨h.1.trans (Nat.le_succ _), ?_⟩
  intro s sl hslot
  rcases Roster.slot_assign hslot with ⟨-, rfl⟩ | ⟨-, hold⟩
  · have hle := h.1
    show r.last + 1 ≠ d
    omega
  · exact h.2 s sl hold

omit [DecidableEq Op] in
/-- A step that records nothing only has to keep the dispatches over. -/
theorem Inv.quiet {s : PoolState Op} (h : s.Inv) {q : WorkerPool Op} (hsound : q.Sound)
    (hover : ∀ d, Over s.pool.roster d → Over q.roster d) : Inv { s with pool := q } where
  sound := hsound
  accepted_over := fun d hd => hover d (h.accepted_over d hd)
  lost_over := fun d hd => hover d (h.lost_over d hd)
  accepted_nodup := h.accepted_nodup
  disjoint := h.disjoint

omit [DecidableEq Op] in
theorem Inv.quiet_takesBack {s : PoolState Op} (h : s.Inv) {q : WorkerPool Op} {freed : List Nat}
    {lost : List Op} (hback : s.pool.TakesBack freed lost q) : Inv { s with pool := q } := by
  apply h.quiet hback.sound
  intro d hd
  rw [hback.refines]
  exact hd.free freed

omit [DecidableEq Op] in
theorem dispatch_of_current {p : WorkerPool Op} (h : p.Sound) {shard d : Nat}
    (hcurrent : (p.worker shard).currentDispatch = some d) :
    ∃ sl, p.roster.slot shard = some sl ∧ sl.dispatch = d := by
  have hbusy : (p.worker shard).operations.isBusy = true := by
    rw [(h.row shard).busy_dispatch, hcurrent]
    rfl
  obtain ⟨ops, hops⟩ := Assignment.isBusy_iff.1 hbusy
  obtain ⟨d', hd', hslot⟩ := (h.row shard).slot_of_busy hops
  refine ⟨_, hslot, ?_⟩
  rw [hcurrent] at hd'
  exact (Option.some.inj hd').symm

omit [DecidableEq Op] in
/-- The dispatches a recovery takes back were current, and are over afterwards. -/
theorem over_of_takenBack {p q : WorkerPool Op} {freed : List Nat} {lost : List Op} {d : Nat}
    (hp : p.Sound) (hback : p.TakesBack freed lost q) (hd : d ∈ p.takenBack q) :
    (∃ shard sl, p.roster.slot shard = some sl ∧ sl.dispatch = d) ∧ Over q.roster d := by
  obtain ⟨shard, -, hshard⟩ := List.mem_filterMap.1 hd
  by_cases hnone : (q.worker shard).currentDispatch = none
  · rw [if_pos hnone] at hshard
    obtain ⟨sl, hslot, hdispatch⟩ := dispatch_of_current hp hshard
    refine ⟨⟨shard, sl, hslot, hdispatch⟩, ?_, ?_⟩
    · rw [hback.refines]
      exact hdispatch ▸ hp.roster.dispatch_le shard sl hslot
    · intro s sl' hslot' heq
      have hs : s ≠ shard := by
        rintro rfl
        have hcurrent := (Worker.slot_eq_some.1 hslot').2.1
        rw [hnone] at hcurrent
        cases hcurrent
      rw [hback.refines] at hslot'
      have hold := (Roster.slot_free_eq_some.1 hslot').2
      exact hs (hp.roster.dispatch_injective s shard sl' sl hold hslot (by rw [heq, hdispatch]))
  · rw [if_neg hnone] at hshard
    cases hshard

omit [DecidableEq Op] in
theorem Inv.recover {s : PoolState Op} (h : s.Inv) {q : WorkerPool Op} {freed : List Nat}
    {lost : List Op} (hback : s.pool.TakesBack freed lost q) : Inv (s.recover q) where
  sound := hback.sound
  accepted_over := (h.quiet_takesBack hback).accepted_over
  lost_over := by
    intro d hd
    rcases List.mem_append.1 hd with hd | hd
    · exact (h.quiet_takesBack hback).lost_over d hd
    · exact (over_of_takenBack h.sound hback hd).2
  accepted_nodup := h.accepted_nodup
  disjoint := by
    intro d hd hlost
    rcases List.mem_append.1 hlost with hlost | hlost
    · exact h.disjoint d hd hlost
    · obtain ⟨⟨shard, sl, hslot, hdispatch⟩, -⟩ := over_of_takenBack h.sound hback hlost
      exact (h.accepted_over d hd).2 shard sl hslot hdispatch

theorem Inv.answer {s : PoolState Op} (h : s.Inv) (shard : Nat) (dispatchId : Option Nat) :
    Inv (s.answer shard dispatchId) := by
  rcases h.sound.releaseWorker shard dispatchId with ⟨hpool, hrefused, -⟩ |
      ⟨sl, hslot, -, hrelease, hback⟩
  · have haccepts : Release.accepts (s.pool.releaseWorker shard dispatchId).1 = false := by
      rcases hrefused with hverdict | ⟨e, herror⟩
      · rw [hverdict]
        rfl
      · rw [herror]
        rfl
    simp only [PoolState.answer, hpool, haccepts, Bool.false_eq_true, if_false]
    exact h
  · have haccepts : Release.accepts (s.pool.releaseWorker shard dispatchId).1 = true := by
      rw [hrelease, Slot.release]
      split_ifs <;> rfl
    have hcurrent : (s.pool.worker shard).currentDispatch = some sl.dispatch :=
      (Worker.slot_eq_some.1 hslot).2.1
    have hquiet := h.quiet_takesBack hback
    simp only [PoolState.answer, haccepts, if_true, hcurrent, Option.toList_some]
    -- The accepted dispatch was current until now, so it is in neither record.
    have hnew : sl.dispatch ∉ s.accepted := by
      intro hmem
      exact (h.accepted_over _ hmem).2 shard sl hslot rfl
    have hnotLost : sl.dispatch ∉ s.lost := by
      intro hmem
      exact (h.lost_over _ hmem).2 shard sl hslot rfl
    refine ⟨hquiet.sound, ?_, hquiet.lost_over, ?_, ?_⟩
    · intro d hd
      rcases List.mem_append.1 hd with hd | hd
      · exact hquiet.accepted_over d hd
      · rw [List.mem_singleton.1 hd]
        refine ⟨?_, ?_⟩
        · rw [hback.refines]
          exact h.sound.roster.dispatch_le shard sl hslot
        · intro s' sl' hslot' heq
          rw [hback.refines] at hslot'
          obtain ⟨hne, hold⟩ := Roster.slot_free_eq_some.1 hslot'
          have hs := h.sound.roster.dispatch_injective s' shard sl' sl hold hslot heq
          exact hne (hs ▸ List.mem_singleton_self s')
    · exact List.nodup_append.2 ⟨h.accepted_nodup, List.nodup_singleton _, by
        rintro d hd d' hd' rfl
        exact hnew (List.mem_singleton.1 hd' ▸ hd)⟩
    · intro d hd
      rcases List.mem_append.1 hd with hd | hd
      · exact h.disjoint d hd
      · rw [List.mem_singleton.1 hd]
        exact hnotLost

/-- What one call preserves. -/
theorem Inv.step {s t : PoolState Op} (h : s.Inv) {a : PoolAction Op} (hstep : s.step a = some t) :
    t.Inv := by
  cases a with
  | acquire ops pick now =>
      cases hstep
      obtain ⟨answer, q, hq, hsound, -, hcases⟩ := h.sound.acquireWorker ops pick now
      rw [hq]
      apply h.quiet hsound
      intro d hd
      rcases hcases with ⟨-, hroster⟩ | ⟨shard, -, -, -, -, hroster⟩
      · rw [hroster]
        exact hd
      · rw [hroster]
        exact hd.assign shard ops
  | setTimeout shard d timeout now =>
      cases hstep
      exact h.quiet_takesBack (h.sound.setTimeout shard d timeout now)
  | markAnswered shard d now =>
      cases hstep
      exact h.quiet_takesBack (h.sound.markAnswered shard d now)
  | answer shard d =>
      cases hstep
      exact h.answer shard d
  | ignoreOperation op =>
      cases hstep
      obtain ⟨hsound, -, hroster⟩ := h.sound.ignoreOperation op
      apply h.quiet hsound
      intro d hd
      rw [hroster]
      cases s.pool.roster.holder op with
      | none => exact hd
      | some shard => exact hd.ignore op shard
  | checkTimeouts now =>
      cases hstep
      obtain ⟨freed, lost, q, hq, hback⟩ := WorkerPool.checkTimeouts_takesBack h.sound now
      rw [hq]
      exact h.recover hback
  | checkConnections =>
      cases hstep
      obtain ⟨freed, lost, q, hq, hback⟩ := WorkerPool.checkConnections_takesBack h.sound
      rw [hq]
      exact h.recover hback
  | disable shard =>
      cases hstep
      obtain ⟨freed, lost, hback, -⟩ := h.sound.disableWorker shard
      exact h.recover hback
  | enable shard =>
      cases hstep
      exact h.quiet_takesBack (h.sound.enableWorker shard)
  | connected shard =>
      simp only [PoolState.step, Option.ite_none_right_eq_some, Option.some.injEq] at hstep
      rw [← hstep.2]
      exact h.quiet_takesBack (h.sound.onWorkerConnected shard)
  | disconnected shard =>
      simp only [PoolState.step, Option.ite_none_right_eq_some, Option.some.injEq] at hstep
      rw [← hstep.2]
      exact h.quiet_takesBack (h.sound.onWorkerDisconnected shard)

omit [DecidableEq Op] in
theorem inv_start (count : Nat) : (start Op count).Inv where
  sound := WorkerPool.sound_withWorkers count
  accepted_over := by simp [start]
  lost_over := by simp [start]
  accepted_nodup := by simp [start]
  disjoint := by simp [start]

/-- What a run preserves. -/
theorem inv_of_reachable {count : Nat} {s : PoolState Op}
    (h : (poolMachine Op count).Reachable s) : s.Inv :=
  h.invariant (fun _ hs => hs ▸ inv_start count) (fun _ _ _ hs hstep => hs.step hstep)

omit [DecidableEq Op] in
/-- What a recovery returns was held by a dispatch that it took back. -/
theorem lostWith_of_takesBack {p q : WorkerPool Op} {freed : List Nat} {lost : List Op}
    (hp : p.Sound) (hback : p.TakesBack freed lost q) {op : Op} (hop : op ∈ lost) :
    p.LostWith q op := by
  obtain ⟨shard, hshard, sl, hslot, hmem⟩ := hback.held op hop
  obtain ⟨hops, hcurrent, -⟩ := Worker.slot_eq_some.1 hslot
  refine ⟨shard, sl.operations, sl.dispatch, hops, hmem, hcurrent, ?_⟩
  refine List.mem_filterMap.2 ⟨shard, hp.mem_shards (Assignment.isBusy_iff.2 ⟨_, hops⟩), ?_⟩
  have hfreed : (q.worker shard).slot = none := by
    show q.roster.slot shard = none
    rw [hback.refines]
    simp [Roster.free, hshard]
  have hnone : (q.worker shard).currentDispatch = none := by
    by_contra hsome
    obtain ⟨d, hd⟩ := Option.ne_none_iff_exists'.1 hsome
    obtain ⟨sl', hslot', -⟩ := dispatch_of_current hback.sound hd
    rw [show q.roster.slot shard = none from hfreed] at hslot'
    cases hslot'
  rw [if_pos hnone]
  exact hcurrent

end PoolState

/-- The dictionaries of every shard agree, the reverse map is exact, the recoveries
return (so the assertion of `check_timeouts` holds) and what they return belongs
to the dispatches they take back, and a dispatch is accepted at most once and
never when a recovery has taken it back. -/
theorem pool_accounts_dispatches (count : Nat) (s : PoolState Op)
    (h : (poolMachine Op count).Reachable s) :
    (∀ shard ∈ s.pool.shards,
      ((∃ ops, (s.pool.worker shard).operations = .busy ops) ↔
        (s.pool.worker shard).startTime ≠ none) ∧
      ((s.pool.worker shard).startTime ≠ none ↔
        (s.pool.worker shard).currentDispatch ≠ none)) ∧
    (∀ op shard, s.pool.operationsReverse op = some shard →
      shard ∈ s.pool.shards ∧ ∃ ops, (s.pool.worker shard).operations = .busy ops ∧ op ∈ ops) ∧
    (∀ now, ∃ lost, (s.pool.checkTimeouts now).1 = .ok lost ∧
      ∀ op ∈ lost, s.pool.LostWith (s.pool.checkTimeouts now).2 op) ∧
    (∃ lost, s.pool.checkConnections.1 = .ok lost ∧
      ∀ op ∈ lost, s.pool.LostWith s.pool.checkConnections.2 op) ∧
    (∀ shard lost, (s.pool.disableWorker shard).1 = .ok lost →
      ∀ op ∈ lost, s.pool.LostWith (s.pool.disableWorker shard).2 op) ∧
    s.accepted.Nodup ∧ ∀ d ∈ s.accepted, d ∉ s.lost := by
  have hinv := PoolState.inv_of_reachable h
  have hsound := hinv.sound
  refine ⟨?_, ?_, ?_, ?_, ?_, hinv.accepted_nodup, hinv.disjoint⟩
  · intro shard _
    have hrow := hsound.row shard
    constructor
    · rw [← Assignment.isBusy_iff, hrow.busy_start, Option.isSome_iff_ne_none]
    · rw [← Option.isSome_iff_ne_none, ← Option.isSome_iff_ne_none, ← hrow.busy_start,
        ← hrow.busy_dispatch]
  · intro op shard hreverse
    obtain ⟨sl, hslot, hop⟩ := hsound.roster.holder_holds op shard hreverse
    have hops := (Worker.slot_eq_some.1 hslot).1
    refine ⟨?_, sl.operations, hops, hop⟩
    apply hsound.mem_shards
    rw [hops]
    rfl
  · intro now
    obtain ⟨freed, lost, q, hq, hback⟩ := WorkerPool.checkTimeouts_takesBack hsound now
    rw [hq]
    exact ⟨lost, rfl, fun op hop => PoolState.lostWith_of_takesBack hsound hback hop⟩
  · obtain ⟨freed, lost, q, hq, hback⟩ := WorkerPool.checkConnections_takesBack hsound
    rw [hq]
    exact ⟨lost, rfl, fun op hop => PoolState.lostWith_of_takesBack hsound hback hop⟩
  · intro shard returned hreturned op hop
    obtain ⟨freed, lost, hback, hlost⟩ := hsound.disableWorker shard
    rw [hlost returned hreturned] at hop
    exact PoolState.lostWith_of_takesBack hsound hback hop

/-- Worker 0 times out on operation 7, restarts, is given the same operation again,
and answers both dispatches: only the second one is accepted. -/
def restartRun : List (PoolAction Nat) :=
  [.connected 0, .acquire [7] 0 0, .checkTimeouts 5000, .connected 0, .acquire [7] 0 5001,
    .answer 0 (some 1), .answer 0 (some 2)]

theorem pool_accounts_dispatches_restartRun :
    ∃ s, (poolMachine Nat 2).exec (PoolState.start Nat 2) restartRun = some s ∧
      s.lost = [1] ∧ s.accepted = [2] ∧ s.accepted.Nodup ∧ ∀ d ∈ s.accepted, d ∉ s.lost := by
  have hsome : ((poolMachine Nat 2).exec (PoolState.start Nat 2) restartRun).isSome = true := by
    decide
  obtain ⟨s, hs⟩ := Option.isSome_iff_exists.1 hsome
  have hrecords : ((poolMachine Nat 2).exec (PoolState.start Nat 2) restartRun).map
      (fun s => (s.lost, s.accepted)) = some ([1], [2]) := by
    decide
  rw [hs, Option.map_some, Option.some.injEq, Prod.mk.injEq] at hrecords
  have hresult := pool_accounts_dispatches 2 s (Machine.reachable_of_exec rfl hs)
  exact ⟨s, hs, hrecords.1, hrecords.2, hresult.2.2.2.2.2⟩

end Service
end ContestManagement
