import ContestManagement.Service.OperationCopies

/-!
# How the calls of EvaluationService move copies

For each call that touches the workers or the loop: what it keeps of `Assigned`,
and how the ledger of every operation moves.
-/

namespace ContestManagement
namespace Service

open Io Lib

namespace EvaluationService

/-! ### The queue of callbacks -/

/-- Callbacks are handed to the loop.  A dequeue among them finds no live copy of
its operation at a worker, because the caller marks it as ignored. -/
theorem Assigned.append_ready {s : EvaluationService} (h : s.Assigned)
    {callbacks : List Callback} (hstart : ∀ id, .start id ∉ callbacks)
    (hdequeue : ∀ op, .dequeue op ∈ callbacks → ∀ shard, s.copiesAt shard op = []) :
    Assigned { s with ready := s.ready ++ callbacks } where
  sound := h.sound
  shards_nodup := h.shards_nodup
  holder := h.holder
  task := h.task
  ids_nodup := h.ids_nodup
  ids_le := h.ids_le
  starts_le := by
    intro id hid
    rcases List.mem_append.1 hid with hid | hid
    · exact h.starts_le id hid
    · exact absurd hid (hstart id)
  ordered := by
    intro shard sl op d hslot hd hid hcopies
    have hnew : .dequeue op ∉ callbacks := by
      intro hmem
      exact hcopies (hdequeue op hmem shard)
    obtain ⟨hstarted, hafter⟩ := h.ordered shard sl op d hslot hd hid hcopies
    constructor
    · intro hd' hmem
      rcases List.mem_append.1 hmem with hmem | hmem
      · exact hstarted hd' hmem
      · exact hnew hmem
    · intro before after hready hmem
      change s.ready ++ callbacks = before ++ .start d.id :: after at hready
      rcases List.append_eq_append_iff.1 hready with ⟨mid, -, hmid⟩ | ⟨mid, hmid, hrest⟩
      · apply hstart d.id
        rw [hmid]
        simp
      · cases mid with
        | nil =>
            apply hstart d.id
            rw [List.nil_append] at hrest
            rw [← hrest]
            exact List.mem_cons_self
        | cons first mid =>
            rw [List.cons_append, List.cons.injEq] at hrest
            rw [hrest.2] at hmem
            rcases List.mem_append.1 hmem with hmem | hmem
            · exact hafter before mid (hrest.1 ▸ hmid) hmem
            · exact hnew hmem

/-- The loop takes its next callback. -/
theorem Assigned.tail {s : EvaluationService} (h : s.Assigned) {callback : Callback}
    {rest : List Callback} (hready : s.ready = callback :: rest) :
    Assigned { s with ready := rest } where
  sound := h.sound
  shards_nodup := h.shards_nodup
  holder := h.holder
  task := h.task
  ids_nodup := h.ids_nodup
  ids_le := h.ids_le
  starts_le := by
    intro id hid
    exact h.starts_le id (hready ▸ List.mem_cons_of_mem _ hid)
  ordered := by
    intro shard sl op d hslot hd hid hcopies
    obtain ⟨hstarted, hafter⟩ := h.ordered shard sl op d hslot hd hid hcopies
    constructor
    · intro hd' hmem
      exact hstarted hd' (hready ▸ List.mem_cons_of_mem _ hmem)
    · intro before after hrest
      apply hafter (callback :: before) after
      change rest = _ at hrest
      rw [hready, hrest, List.cons_append]

/-- Marking the tasks of one job group as started. -/
def markStarted (id : Nat) (dispatches : List Dispatch) : List Dispatch :=
  dispatches.map fun d => if d.id = id then { d with started := true } else d

theorem mem_markStarted {id : Nat} {dispatches : List Dispatch} {d' : Dispatch}
    (h : d' ∈ markStarted id dispatches) :
    ∃ d ∈ dispatches, d'.id = d.id ∧ d'.shard = d.shard ∧ d'.items = d.items ∧
      (d'.started = true → d.started = true ∨ d.id = id) := by
  obtain ⟨d, hd, rfl⟩ := List.mem_map.1 h
  refine ⟨d, hd, ?_⟩
  by_cases hid : d.id = id <;> simp [hid]

theorem map_id_markStarted (id : Nat) (dispatches : List Dispatch) :
    (markStarted id dispatches).map Dispatch.id = dispatches.map Dispatch.id := by
  rw [markStarted, List.map_map]
  apply List.map_congr_left
  intro d _
  by_cases hid : d.id = id <;> simp [hid]

theorem itemsOf_markStarted (s : EvaluationService) (id other : Nat) :
    itemsOf { s with dispatches := markStarted id s.dispatches } other = s.itemsOf other := by
  unfold itemsOf markStarted
  generalize s.dispatches = dispatches
  induction dispatches with
  | nil => rfl
  | cons d rest ih =>
      rw [List.map_cons]
      by_cases hid : d.id = id
      · by_cases hother : d.id = other
        · simp [hid, hid ▸ hother]
        · have hne : id ≠ other := hid ▸ hother
          simp only [hid, if_true, List.find?_cons, hne, decide_false] at ih ⊢
          exact ih
      · by_cases hother : d.id = other
        · subst hother
          simp only [if_neg hid, List.find?_cons, decide_true]
        · simp only [hid, if_false, List.find?_cons, hother, decide_false] at ih ⊢
          exact ih

/-- The loop starts the task of a job group. -/
theorem Assigned.start {s : EvaluationService} (h : s.Assigned) {id : Nat}
    {rest : List Callback} (hready : s.ready = .start id :: rest) :
    Assigned { s with ready := rest, dispatches := markStarted id s.dispatches } := by
  have htail := h.tail hready
  have hcopies : ∀ shard op, copiesAt { s with
      ready := rest, dispatches := markStarted id s.dispatches } shard op =
      s.copiesAt shard op := by
    intro shard op
    unfold copiesAt
    cases (s.pool.worker shard).slot with
    | none => rfl
    | some sl =>
        have hitems : itemsOf { s with
            ready := rest, dispatches := markStarted id s.dispatches } sl.dispatch =
            s.itemsOf sl.dispatch := itemsOf_markStarted s id sl.dispatch
        simp only [hitems]
  refine ⟨htail.sound, htail.shards_nodup, ?_, ?_, ?_, ?_, htail.starts_le, ?_⟩
  · intro shard op hlive
    rw [hcopies] at hlive
    exact h.holder shard op hlive
  · intro shard sl hslot
    obtain ⟨d, hd, hid, hshard, hitems⟩ := h.task shard sl hslot
    refine ⟨_, List.mem_map_of_mem hd, ?_⟩
    by_cases heq : d.id = id <;> simp [heq, ← hid, hshard, hitems]
  · show ((markStarted id s.dispatches).map Dispatch.id).Nodup
    rw [map_id_markStarted]
    exact h.ids_nodup
  · intro d' hd'
    obtain ⟨d, hd, hid, -⟩ := mem_markStarted hd'
    exact hid ▸ h.ids_le d hd
  · intro shard sl op d' hslot hd' hid' hlive
    rw [hcopies] at hlive
    obtain ⟨d, hd, hid, -, -, hstarted⟩ := mem_markStarted hd'
    obtain ⟨hold, hafter⟩ := htail.ordered shard sl op d hslot hd (hid ▸ hid') hlive
    constructor
    · intro hd'started
      rcases hstarted hd'started with hdstarted | heq
      · exact hold hdstarted
      · -- The callback that just ran was the start itself: what is left comes after it.
        exact (h.ordered shard sl op d hslot hd (hid ▸ hid') hlive).2 [] rest (by
          rw [hready, heq]
          rfl)
    · rw [hid]
      exact hafter

/-! ### Ignoring an operation -/

/-- After `ignore_operation` no worker has a live copy of the operation. -/
theorem Assigned.copiesAt_ignore {s : EvaluationService} (h : s.Assigned) (op : ESOperation)
    (shard : Nat) : copiesAt (s.ignoreOperation op) shard op = [] := by
  by_contra hlive
  have hsublist := copiesAt_sublist (shrinks_ignoreOperation h.sound op) shard op
  have hold : s.copiesAt shard op ≠ [] := by
    intro hnil
    exact hlive (List.sublist_nil.1 (hnil ▸ hsublist))
  have hholder := h.holder shard op hold
  obtain ⟨sl', hslot', hignored, -⟩ := copiesAt_ne_nil hlive
  have hroster := (h.sound.ignoreOperation op).2.2
  rw [hholder] at hroster
  change (s.pool.ignoreOperation op).2.roster.slot shard = some sl' at hslot'
  rw [hroster] at hslot'
  simp only [Roster.ignore, Function.update_self, Option.map_eq_some_iff] at hslot'
  obtain ⟨sl, -, rfl⟩ := hslot'
  exact hignored (by simp)

theorem Assigned.ignoreOperation {s : EvaluationService} (h : s.Assigned) (op : ESOperation) :
    Assigned (s.ignoreOperation op) :=
  h.shrink (shrinks_ignoreOperation h.sound op)

theorem copiesAssigned_eq_nil {s : EvaluationService} {op : ESOperation}
    (h : ∀ shard, s.copiesAt shard op = []) : s.copiesAssigned op = [] := by
  simp [copiesAssigned, h]

/-! ### Giving out a job group -/

/-- The state after a worker was acquired for the executing operations. -/
def dispatched (s : EvaluationService) (shard id : Nat) (pool : WorkerPool ESOperation) :
    EvaluationService :=
  { s with
    pool := pool
    executing := []
    dispatches := s.dispatches ++ [⟨id, shard, s.executing, false⟩]
    ready := s.ready ++ [.start id] }

theorem itemsOf_dispatched_of_ne {s : EvaluationService} {shard id : Nat}
    {pool : WorkerPool ESOperation} {other : Nat} (hother : other ≠ id) :
    itemsOf (s.dispatched shard id pool) other = s.itemsOf other := by
  have hne : ¬id = other := fun h => hother h.symm
  simp only [itemsOf, dispatched, List.find?_append, List.find?_cons, hne, decide_false,
    List.find?_nil, Option.or_none]

theorem itemsOf_dispatched_self {s : EvaluationService} {shard id : Nat}
    {pool : WorkerPool ESOperation} (hnew : ∀ d ∈ s.dispatches, d.id ≠ id) :
    itemsOf (s.dispatched shard id pool) id = s.executing := by
  have hfind : s.dispatches.find? (fun d => d.id = id) = none := by
    rw [List.find?_eq_none]
    intro d hd
    simpa using hnew d hd
  simp [itemsOf, dispatched, List.find?_append, hfind]

variable {s : EvaluationService} {shard : Nat} {q : WorkerPool ESOperation}

theorem Assigned.new_id (h : s.Assigned) : ∀ d ∈ s.dispatches, d.id ≠ s.pool.roster.last + 1 := by
  intro d hd heq
  have hle := h.ids_le d hd
  omega

/-- The copies at the workers after a job group was given out. -/
theorem Assigned.copiesAt_dispatched (h : s.Assigned)
    (hroster : q.roster = s.pool.roster.assign shard (s.executing.map Queued.operation))
    (other : Nat) (op : ESOperation) :
    copiesAt (s.dispatched shard (s.pool.roster.last + 1) q) other op =
      if other = shard then copiesOf op s.executing else s.copiesAt other op := by
  by_cases hother : other = shard
  · subst hother
    rw [if_pos rfl]
    have hslot : (s.dispatched other (s.pool.roster.last + 1) q).pool.roster.slot other =
        some ⟨s.pool.roster.last + 1, s.executing.map Queued.operation, []⟩ := by
      show q.roster.slot other = _
      rw [hroster]
      simp [Roster.assign]
    rw [copiesAt_of_slot hslot (by simp), itemsOf_dispatched_self h.new_id]
  · rw [if_neg hother]
    have hslot : ((s.dispatched shard (s.pool.roster.last + 1) q).pool.worker other).slot =
        (s.pool.worker other).slot := by
      show q.roster.slot other = s.pool.roster.slot other
      rw [hroster]
      simp [Roster.assign, hother]
    unfold copiesAt
    rw [hslot]
    cases hold : (s.pool.worker other).slot with
    | none => rfl
    | some sl =>
        have hne : sl.dispatch ≠ s.pool.roster.last + 1 := by
          have hle := h.sound.roster.dispatch_le other sl hold
          omega
        simp only [itemsOf_dispatched_of_ne hne]

/-- Where an element stands in a list with one more at its end. -/
theorem cases_concat_eq_append_cons {α : Type} {values before after : List α} {last x : α}
    (h : values ++ [last] = before ++ x :: after) :
    after = [] ∨ ∃ mid, values = before ++ x :: mid ∧ after = mid ++ [last] := by
  rcases List.append_eq_append_iff.1 h with ⟨mid, -, hmid⟩ | ⟨mid, hmid, hrest⟩
  · left
    cases mid with
    | nil => exact (List.cons.inj hmid).2.symm
    | cons first mid =>
        have hnil := (List.cons.inj hmid).2
        simp at hnil
  · cases mid with
    | nil =>
        left
        exact (List.cons.inj hrest).2
    | cons first mid =>
        right
        rw [List.cons_append, List.cons.injEq] at hrest
        exact ⟨mid, hrest.1 ▸ hmid, hrest.2⟩

/-- Giving out a job group keeps the workers in order, if no operation in it has a
live copy at a worker. -/
theorem Assigned.dispatched (h : s.Assigned) (hsound : q.Sound) (hshards : q.shards = s.pool.shards)
    (hroster : q.roster = s.pool.roster.assign shard (s.executing.map Queued.operation))
    (hexcl : ∀ op other, s.copiesAt other op ≠ [] → copiesOf op s.executing = []) :
    Assigned (s.dispatched shard (s.pool.roster.last + 1) q) := by
  have hslotq : ∀ {other sl}, q.roster.slot other = some sl →
      (other = shard ∧ sl = ⟨s.pool.roster.last + 1, s.executing.map Queued.operation, []⟩) ∨
        (other ≠ shard ∧ s.pool.roster.slot other = some sl) := by
    intro other sl hslot
    rw [hroster] at hslot
    exact Roster.slot_assign hslot
  have hlast : q.roster.last = s.pool.roster.last + 1 := by
    rw [hroster]
    rfl
  refine ⟨hsound, ?_, ?_, ?_, ?_, ?_, ?_, ?_⟩
  · show q.shards.Nodup
    rw [hshards]
    exact h.shards_nodup
  · intro other op hlive
    rw [h.copiesAt_dispatched hroster] at hlive
    show q.roster.holder op = some other
    rw [hroster]
    by_cases hother : other = shard
    · rw [if_pos hother] at hlive
      have hmem : op ∈ s.executing.map Queued.operation := by
        by_contra hmem
        apply hlive
        rw [copiesOf_eq_nil]
        intro item hitem heq
        exact hmem (heq ▸ List.mem_map_of_mem hitem)
      simp only [Roster.assign, if_pos hmem, hother]
    · rw [if_neg hother] at hlive
      have hnone := hexcl op other hlive
      rw [copiesOf_eq_nil] at hnone
      have hmem : op ∉ s.executing.map Queued.operation := by
        intro hmem
        obtain ⟨item, hitem, heq⟩ := List.mem_map.1 hmem
        exact hnone item hitem heq
      simp only [Roster.assign, if_neg hmem, h.holder other op hlive]
  · intro other sl hslot
    rcases hslotq hslot with ⟨rfl, rfl⟩ | ⟨-, hold⟩
    · exact ⟨_, List.mem_append_right _ (List.mem_singleton_self _), rfl, rfl, rfl⟩
    · obtain ⟨d, hd, hrest⟩ := h.task other sl hold
      exact ⟨d, List.mem_append_left _ hd, hrest⟩
  · show ((s.dispatches ++ [_]).map Dispatch.id).Nodup
    rw [List.map_append, List.nodup_append]
    refine ⟨h.ids_nodup, List.nodup_singleton _, ?_⟩
    rintro id hid id' hid' rfl
    obtain ⟨d, hd, rfl⟩ := List.mem_map.1 hid
    exact h.new_id d hd (by simpa using hid')
  · intro d hd
    show d.id ≤ q.roster.last
    rw [hlast]
    rcases List.mem_append.1 hd with hd | hd
    · exact (h.ids_le d hd).trans (Nat.le_succ _)
    · rw [List.mem_singleton.1 hd]
  · intro id hid
    show id ≤ q.roster.last
    rw [hlast]
    rcases List.mem_append.1 hid with hid | hid
    · exact (h.starts_le id hid).trans (Nat.le_succ _)
    · simp only [List.mem_singleton, Callback.start.injEq] at hid
      omega
  · intro other sl op d hslot hd hid hlive
    rw [h.copiesAt_dispatched hroster] at hlive
    -- The start of the new job group is the last callback.
    rcases hslotq hslot with ⟨rfl, rfl⟩ | ⟨hne, hold⟩
    · rcases List.mem_append.1 hd with hd | hd
      · exact absurd hid (h.new_id d hd)
      · rw [List.mem_singleton] at hd
        subst hd
        refine ⟨by simp, ?_⟩
        intro before after heq
        rcases cases_concat_eq_append_cons heq with rfl | ⟨mid, hready, -⟩
        · exact List.not_mem_nil
        · have hle := h.starts_le (s.pool.roster.last + 1) (by
            rw [hready]
            simp)
          omega
    · rw [if_neg hne] at hlive
      have hidne : d.id ≠ s.pool.roster.last + 1 := by
        have hle := h.sound.roster.dispatch_le other sl hold
        omega
      have hdold : d ∈ s.dispatches := by
        rcases List.mem_append.1 hd with hd | hd
        · exact hd
        · rw [List.mem_singleton.1 hd] at hidne
          exact absurd rfl hidne
      obtain ⟨hstarted, hafter⟩ := h.ordered other sl op d hold hdold hid hlive
      constructor
      · intro hd' hmem
        rcases List.mem_append.1 hmem with hmem | hmem
        · exact hstarted hd' hmem
        · simp at hmem
      · intro before after heq hmem
        rcases cases_concat_eq_append_cons heq with rfl | ⟨mid, hready, rfl⟩
        · cases hmem
        · rcases List.mem_append.1 hmem with hmem | hmem
          · exact hafter before mid hready hmem
          · simp at hmem

/-- Changing one empty part of a concatenation adds the new part. -/
theorem coe_flatMap_update {l : List Nat} (hnodup : l.Nodup) {i : Nat} (hmem : i ∈ l)
    {f g : Nat → List Nat} (hother : ∀ j, j ≠ i → g j = f j) (hnil : f i = []) :
    (l.flatMap g : Multiset Nat) = l.flatMap f + g i := by
  induction l with
  | nil => cases hmem
  | cons j rest ih =>
      rw [List.nodup_cons] at hnodup
      rw [List.flatMap_cons, List.flatMap_cons, ← Multiset.coe_add, ← Multiset.coe_add]
      by_cases hj : j = i
      · subst hj
        have hrest : rest.flatMap g = rest.flatMap f := by
          apply List.flatMap_congr
          intro k hk
          exact hother k (fun heq => hnodup.1 (heq ▸ hk))
        rw [hrest, hnil, Multiset.coe_nil, zero_add, add_comm]
      · have hrest := ih hnodup.2 (List.mem_of_ne_of_mem (fun heq => hj heq.symm) hmem)
        rw [hrest, hother j hj, add_assoc]

/-- Giving out a job group moves its copies from the executing list to the worker. -/
theorem Assigned.held_dispatched (h : s.Assigned) (hshards : q.shards = s.pool.shards)
    (hmem : shard ∈ s.pool.shards) (hfree : s.pool.roster.slot shard = none)
    (hroster : q.roster = s.pool.roster.assign shard (s.executing.map Queued.operation))
    (op : ESOperation) :
    (ledger (s.dispatched shard (s.pool.roster.last + 1) q) op).held = (s.ledger op).held := by
  have hassigned : (copiesAssigned (s.dispatched shard (s.pool.roster.last + 1) q) op :
      Multiset Nat) = s.copiesAssigned op + copiesOf op s.executing := by
    unfold copiesAssigned
    have hnil : s.copiesAt shard op = [] := by
      have hrow : (s.pool.worker shard).slot = none := hfree
      simp [copiesAt, hrow]
    have hother : ∀ other, other ≠ shard →
        copiesAt (s.dispatched shard (s.pool.roster.last + 1) q) other op =
          s.copiesAt other op := by
      intro other hother
      rw [h.copiesAt_dispatched hroster, if_neg hother]
    have hpool : (s.dispatched shard (s.pool.roster.last + 1) q).pool.shards =
        s.pool.shards := hshards
    rw [hpool, coe_flatMap_update h.shards_nodup hmem hother hnil,
      h.copiesAt_dispatched hroster, if_pos rfl]
  simp only [ledger, ← Multiset.coe_add]
  rw [hassigned]
  show (s.copiesQueued op : Multiset Nat) + (copiesOf op [] : List Nat) + _ = _
  rw [copiesOf_nil, Multiset.coe_nil, add_zero, add_comm (s.copiesAssigned op : Multiset Nat),
    add_assoc]

/-! ### Answers -/

theorem itemsOf_filter {s : EvaluationService} {id other : Nat} (hother : other ≠ id) :
    itemsOf { s with dispatches := s.dispatches.filter fun d => d.id ≠ id } other =
      s.itemsOf other := by
  unfold itemsOf
  simp only [List.find?_filter]
  have hpred : (fun d : Dispatch => decide (decide (d.id ≠ id) = true ∧
      decide (d.id = other) = true)) = fun d => decide (d.id = other) := by
    funext d
    by_cases hd : d.id = other
    · simp [hd, hother]
    · simp [hd]
  rw [hpred]

theorem copiesAt_dropTask {s : EvaluationService} {id : Nat}
    (hnone : ∀ shard sl, s.pool.roster.slot shard = some sl → sl.dispatch ≠ id)
    (shard : Nat) (op : ESOperation) :
    copiesAt { s with dispatches := s.dispatches.filter fun d => d.id ≠ id } shard op =
      s.copiesAt shard op := by
  unfold copiesAt
  cases hslot : (s.pool.worker shard).slot with
  | none => rfl
  | some sl => simp only [itemsOf_filter (hnone shard sl hslot)]

/-- The task of a job group that is at no worker ends. -/
theorem Assigned.dropTask {s : EvaluationService} (h : s.Assigned) {id : Nat}
    (hnone : ∀ shard sl, s.pool.roster.slot shard = some sl → sl.dispatch ≠ id) :
    Assigned { s with dispatches := s.dispatches.filter fun d => d.id ≠ id } where
  sound := h.sound
  shards_nodup := h.shards_nodup
  holder := by
    intro shard op hlive
    rw [copiesAt_dropTask hnone] at hlive
    exact h.holder shard op hlive
  task := by
    intro shard sl hslot
    obtain ⟨d, hd, hid, hrest⟩ := h.task shard sl hslot
    refine ⟨d, List.mem_filter.2 ⟨hd, ?_⟩, hid, hrest⟩
    simpa [hid] using hnone shard sl hslot
  ids_nodup := h.ids_nodup.sublist (List.filter_sublist.map _)
  ids_le := fun d hd => h.ids_le d (List.mem_filter.1 hd).1
  starts_le := h.starts_le
  ordered := by
    intro shard sl op d hslot hd hid hlive
    rw [copiesAt_dropTask hnone] at hlive
    exact h.ordered shard sl op d hslot (List.mem_filter.1 hd).1 hid hlive

/-- A job group at a worker belongs to the task with its id. -/
theorem Assigned.shard_of_dispatch {s : EvaluationService} (h : s.Assigned) {d : Dispatch}
    (hd : d ∈ s.dispatches) {shard : Nat} {sl : Slot ESOperation}
    (hslot : s.pool.roster.slot shard = some sl) (hid : sl.dispatch = d.id) :
    shard = d.shard := by
  obtain ⟨d', hd', hid', hshard, -⟩ := h.task shard sl hslot
  have heq : d' = d := List.inj_on_of_nodup_map h.ids_nodup hd' hd (hid'.trans hid)
  rw [← hshard, heq]

/-- What the answer of a task does. -/
theorem answer_cases {s t : EvaluationService} (h : s.Assigned) {id : Nat}
    {failed : Option (List ESOperation)} (hstep : s.answer id failed = some t) :
    s.lockedBy = none ∧ ∃ d ∈ s.dispatches, d.id = id ∧ d.started = true ∧
      (((∀ shard sl, s.pool.roster.slot shard = some sl → sl.dispatch ≠ id) ∧
          t = { s with dispatches := s.dispatches.filter fun d => d.id ≠ id }) ∨
        ∃ sl q, s.pool.roster.slot d.shard = some sl ∧ sl.dispatch = id ∧
          s.pool.TakesBack [d.shard] sl.operations q ∧
          let released : EvaluationService :=
            { s with dispatches := s.dispatches.filter fun d => d.id ≠ id, pool := q }
          (t = released ∨ ∃ failed, t = released.cacheResults sl.toIgnore failed d.items)) := by
  unfold answer at hstep
  by_cases hlocked : s.lockedBy = none
  · rw [if_pos hlocked] at hstep
    refine ⟨hlocked, ?_⟩
    cases hfind : s.dispatches.find? fun d => d.id = id ∧ d.started with
    | none =>
        rw [hfind] at hstep
        cases hstep
    | some d =>
        have hd : d ∈ s.dispatches := List.mem_of_find?_eq_some hfind
        have hcond := List.find?_some hfind
        simp only [decide_eq_true_eq] at hcond
        obtain ⟨hid, hstarted⟩ := hcond
        simp only [hfind] at hstep
        refine ⟨d, hd, hid, hstarted, ?_⟩
        rcases h.sound.releaseWorker d.shard (some id) with ⟨hpool, hrefused, hstale⟩ |
            ⟨sl, hslot, hdispatch, hrelease, hback⟩
        · left
          constructor
          · intro shard sl hslot heq
            have hshard := h.shard_of_dispatch hd hslot (heq.trans hid.symm)
            subst hshard
            exact (hstale sl hslot).2 (by rw [heq])
          · rw [hpool] at hstep
            rcases hrefused with hverdict | ⟨e, herror⟩
            · simp only [hverdict] at hstep
              exact (Option.some.inj hstep).symm
            · simp only [herror] at hstep
              exact (Option.some.inj hstep).symm
        · right
          have hdispatch' : sl.dispatch = id := by
            rcases hdispatch with hdispatch | hdispatch
            · cases hdispatch
            · exact (Option.some.inj hdispatch).symm
          refine ⟨sl, _, hslot, hdispatch', hback, ?_⟩
          cases failed with
          | none =>
              left
              rw [hrelease, Slot.release] at hstep
              split_ifs at hstep <;> exact (Option.some.inj hstep).symm
          | some failed =>
              right
              refine ⟨failed, ?_⟩
              rw [hrelease, Slot.release] at hstep
              by_cases htoIgnore : sl.toIgnore = []
              · rw [if_neg (not_not.2 htoIgnore)] at hstep
                rw [htoIgnore]
                exact (Option.some.inj hstep).symm
              · rw [if_pos htoIgnore] at hstep
                exact (Option.some.inj hstep).symm
  · rw [if_neg hlocked] at hstep
    cases hstep

/-- Handling an accepted answer keeps the workers in order. -/
theorem Assigned.released {s : EvaluationService} (h : s.Assigned) {d : Dispatch}
    {sl : Slot ESOperation} {q : WorkerPool ESOperation}
    (hslot : s.pool.roster.slot d.shard = some sl) (hid : sl.dispatch = d.id)
    (hback : s.pool.TakesBack [d.shard] sl.operations q) :
    Assigned { s with dispatches := s.dispatches.filter fun e => e.id ≠ d.id, pool := q } ∧
      ∀ op, (copiesAssigned { s with
          dispatches := s.dispatches.filter fun e => e.id ≠ d.id, pool := q } op : Multiset Nat) +
        s.copiesAt d.shard op = s.copiesAssigned op := by
  have hshrinks := shrinks_of_takesBack hback
  have hnone : ∀ shard sl', q.roster.slot shard = some sl' → sl'.dispatch ≠ d.id := by
    intro shard sl' hslot' heq
    rw [hback.refines] at hslot'
    obtain ⟨hmem, hold⟩ := Roster.slot_free_eq_some.1 hslot'
    have hshard := h.sound.roster.dispatch_injective shard d.shard sl' sl hold hslot
      (heq.trans hid.symm)
    exact hmem (hshard ▸ List.mem_singleton_self shard)
  refine ⟨(h.shrink hshrinks).dropTask hnone, ?_⟩
  intro op
  have hcopies : ∀ shard, copiesAt { s with
      dispatches := s.dispatches.filter fun e => e.id ≠ d.id, pool := q } shard op =
      copiesAt { s with pool := q } shard op :=
    fun shard => copiesAt_dropTask (s := { s with pool := q }) hnone shard op
  have hfreed : q.roster.slot d.shard = none := by
    rw [hback.refines]
    simp [Roster.free]
  have hnil : copiesAt { s with
      dispatches := s.dispatches.filter fun e => e.id ≠ d.id, pool := q } d.shard op = [] := by
    rw [hcopies]
    have hrow : (q.worker d.shard).slot = none := hfreed
    simp [copiesAt, hrow]
  have hother : ∀ shard, shard ≠ d.shard → s.copiesAt shard op = copiesAt { s with
      dispatches := s.dispatches.filter fun e => e.id ≠ d.id, pool := q } shard op := by
    intro shard hshard
    rw [hcopies]
    have hrow : (q.worker shard).slot = (s.pool.worker shard).slot := by
      show q.roster.slot shard = s.pool.roster.slot shard
      rw [hback.refines]
      simp [Roster.free, hshard]
    unfold copiesAt
    simp only [hrow]
    rfl
  have hmem : d.shard ∈ s.pool.shards := by
    apply h.sound.mem_shards
    rw [(Worker.slot_eq_some.1 hslot).1]
    rfl
  have hsum := coe_flatMap_update h.shards_nodup hmem hother hnil
  unfold copiesAssigned
  rw [hsum]
  show ((q.shards.flatMap _ : List Nat) : Multiset Nat) + _ = _
  rw [hshrinks.shards_eq]

/-! ### The result cache -/

/-- The copies of an operation in a cache. -/
def cacheCopies (op : ESOperation) (entries : List (ESOperation × Result)) : List Nat :=
  copiesOf op (entries.map fun entry => ⟨entry.1, entry.2.copy⟩)

theorem cacheCopies_cons (op : ESOperation) (entry : ESOperation × Result)
    (rest : List (ESOperation × Result)) :
    cacheCopies op (entry :: rest) =
      if entry.1 = op then entry.2.copy :: cacheCopies op rest else cacheCopies op rest := by
  rw [cacheCopies, List.map_cons, copiesOf_cons]
  rfl

theorem cacheCopies_append (op : ESOperation) (first second : List (ESOperation × Result)) :
    cacheCopies op (first ++ second) = cacheCopies op first ++ cacheCopies op second := by
  simp [cacheCopies]

/-- Setting an item adds at most its own copy. -/
theorem cacheCopies_setItem (op key : ESOperation) (value : Result)
    (d : List (ESOperation × Result)) :
    (cacheCopies op (FlushingDict.setItem key value d) : Multiset Nat) ≤
      cacheCopies op d + (if key = op then {value.copy} else 0) := by
  induction d with
  | nil =>
      rw [FlushingDict.setItem, cacheCopies_cons]
      by_cases hop : key = op <;> simp [hop, cacheCopies]
  | cons entry rest ih =>
      obtain ⟨k, v⟩ := entry
      rw [FlushingDict.setItem]
      by_cases hk : k = key
      · subst hk
        rw [if_pos rfl, cacheCopies_cons, cacheCopies_cons]
        by_cases hop : k = op
        · simp only [hop, if_true, ← Multiset.cons_coe]
          calc value.copy ::ₘ (cacheCopies op rest : Multiset Nat)
              = cacheCopies op rest + {value.copy} := by rw [add_comm, Multiset.singleton_add]
            _ ≤ v.copy ::ₘ (cacheCopies op rest + {value.copy}) := Multiset.le_cons_self _ _
            _ = v.copy ::ₘ (cacheCopies op rest : Multiset Nat) + {value.copy} :=
                (Multiset.cons_add _ _ _).symm
        · simp [hop]
      · rw [if_neg hk, cacheCopies_cons, cacheCopies_cons]
        by_cases hop : k = op
        · simp only [hop, if_true, ← Multiset.cons_coe, Multiset.cons_add]
          exact (Multiset.cons_le_cons_iff _).2 ih
        · simpa [hop] using ih

end EvaluationService

end Service
end ContestManagement
