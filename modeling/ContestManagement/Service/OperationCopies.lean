import ContestManagement.Lib.Ledger
import ContestManagement.Lib.Machine
import ContestManagement.Service.EvaluationService
import ContestManagement.Service.WorkerPoolInvariants

/-!
# The copies of an operation

Where the copies of one operation are: in the queue, in the executing list, at
the workers, on their way as loop actions, in the result cache.  `ledger` reads
off what the general ledger of a thing behind a queue of actions needs, and
`liveCopies` lists the copies that can still have an effect.
-/

namespace ContestManagement
namespace Service

open Io Lib

/-- The copies of an operation in a list of operation objects. -/
def copiesOf (op : ESOperation) (items : List Queued) : List Nat :=
  (items.filter fun item => item.operation = op).map Queued.copy

@[simp] theorem copiesOf_nil (op : ESOperation) : copiesOf op [] = [] := rfl

theorem copiesOf_cons (op : ESOperation) (item : Queued) (rest : List Queued) :
    copiesOf op (item :: rest) =
      if item.operation = op then item.copy :: copiesOf op rest else copiesOf op rest := by
  by_cases h : item.operation = op <;> simp [copiesOf, h]

@[simp] theorem copiesOf_append (op : ESOperation) (first second : List Queued) :
    copiesOf op (first ++ second) = copiesOf op first ++ copiesOf op second := by
  simp [copiesOf]

theorem copiesOf_eq_nil {op : ESOperation} {items : List Queued} :
    copiesOf op items = [] ↔ ∀ item ∈ items, item.operation ≠ op := by
  simp [copiesOf, List.filter_eq_nil_iff]

theorem copiesOf_perm {op : ESOperation} {items items' : List Queued} (h : items.Perm items') :
    (copiesOf op items).Perm (copiesOf op items') :=
  (h.filter _).map _

/-- The pending actions on an operation among callbacks. -/
def actsOn (op : ESOperation) (callbacks : List Callback) : List (Act Nat) :=
  callbacks.filterMap fun callback =>
    match callback with
    | .push item _ _ => if item.operation = op then some (.put item.copy) else none
    | .dequeue other => if other = op then some .remove else none
    | .start _ => none

@[simp] theorem actsOn_nil (op : ESOperation) : actsOn op [] = [] := rfl

@[simp] theorem actsOn_append (op : ESOperation) (first second : List Callback) :
    actsOn op (first ++ second) = actsOn op first ++ actsOn op second := by
  simp [actsOn]

theorem remove_mem_actsOn {op : ESOperation} {callbacks : List Callback} :
    .remove ∈ actsOn op callbacks ↔ .dequeue op ∈ callbacks := by
  constructor
  · intro h
    obtain ⟨callback, hmem, hact⟩ := List.mem_filterMap.1 h
    cases callback with
    | push item priority timestamp =>
        by_cases hop : item.operation = op <;> simp [hop] at hact
    | dequeue other =>
        by_cases hop : other = op
        · exact hop ▸ hmem
        · simp [hop] at hact
    | start id => simp at hact
  · intro h
    exact List.mem_filterMap.2 ⟨.dequeue op, h, by simp⟩

namespace EvaluationService

/-- The operation objects of a job group. -/
def itemsOf (s : EvaluationService) (id : Nat) : List Queued :=
  match s.dispatches.find? fun d => d.id = id with
  | some d => d.items
  | none => []

/-- The copies at one worker that are not marked as ignored. -/
def copiesAt (s : EvaluationService) (shard : Nat) (op : ESOperation) : List Nat :=
  match (s.pool.worker shard).slot with
  | some sl => if op ∈ sl.toIgnore then [] else copiesOf op (s.itemsOf sl.dispatch)
  | none => []

/-- The copies in the priority queue. -/
def copiesQueued (s : EvaluationService) (op : ESOperation) : List Nat :=
  copiesOf op (s.queue.entries.map QueueEntry.item)

/-- The copies at the workers. -/
def copiesAssigned (s : EvaluationService) (op : ESOperation) : List Nat :=
  s.pool.shards.flatMap fun shard => s.copiesAt shard op

/-- The copies whose result is in the result cache. -/
def copiesCached (s : EvaluationService) (op : ESOperation) : List Nat :=
  copiesOf op (s.resultCache.entries.map fun entry => ⟨entry.1, entry.2.copy⟩)

/-- The pending actions on an operation, handed over and buffered. -/
def pendingActs (s : EvaluationService) (op : ESOperation) : List (Act Nat) :=
  actsOn op (s.ready ++ s.loopActions)

/-- The live copies of an operation.  A copy in the queue, in the executing list or
at a worker is dead when a dequeue of the operation is on its way to the loop, and
so is a pending push that such a dequeue follows. -/
def liveCopies (s : EvaluationService) (op : ESOperation) : List Nat :=
  (if Act.removes (s.pendingActs op) then []
    else s.copiesQueued op ++ copiesOf op s.executing ++ s.copiesAssigned op) ++
    Act.livePuts (s.pendingActs op) ++ s.copiesCached op

/-- The ledger of an operation. -/
def ledger (s : EvaluationService) (op : ESOperation) : Ledger Nat where
  held := s.copiesQueued op ++ copiesOf op s.executing ++ s.copiesAssigned op
  handed := actsOn op s.ready
  buffered := actsOn op s.loopActions
  cached := s.copiesCached op

theorem live_ledger (s : EvaluationService) (op : ESOperation) :
    (s.ledger op).live = (s.liveCopies op : Multiset Nat) := by
  have hpending : (s.ledger op).pending = s.pendingActs op := by
    simp [Ledger.pending, ledger, pendingActs]
  rw [Ledger.live, hpending, Act.survivors_eq, liveCopies]
  cases Act.removes (s.pendingActs op) <;> simp [ledger]

/-! ### Copies at the workers -/

theorem itemsOf_of_mem {s : EvaluationService} (hnodup : (s.dispatches.map Dispatch.id).Nodup)
    {d : Dispatch} (hmem : d ∈ s.dispatches) : s.itemsOf d.id = d.items := by
  have hfind : s.dispatches.find? (fun e => e.id = d.id) = some d := by
    generalize s.dispatches = dispatches at hnodup hmem
    induction dispatches with
    | nil => cases hmem
    | cons first rest ih =>
        rw [List.map_cons, List.nodup_cons] at hnodup
        rcases List.mem_cons.1 hmem with rfl | hrest
        · simp
        · have hne : first.id ≠ d.id := by
            intro heq
            exact hnodup.1 (heq ▸ List.mem_map_of_mem hrest)
          simp only [List.find?_cons, hne, decide_false]
          exact ih hnodup.2 hrest
  simp only [itemsOf, hfind]

theorem copiesAt_ne_nil {s : EvaluationService} {shard : Nat} {op : ESOperation}
    (h : s.copiesAt shard op ≠ []) :
    ∃ sl, s.pool.roster.slot shard = some sl ∧ op ∉ sl.toIgnore ∧
      s.copiesAt shard op = copiesOf op (s.itemsOf sl.dispatch) := by
  show ∃ sl, (s.pool.worker shard).slot = some sl ∧ _
  unfold copiesAt at h ⊢
  cases hslot : (s.pool.worker shard).slot with
  | none => simp [hslot] at h
  | some sl =>
      by_cases hignored : op ∈ sl.toIgnore
      · simp [hslot, hignored] at h
      · exact ⟨sl, rfl, hignored, by simp [hignored]⟩

theorem copiesAt_of_slot {s : EvaluationService} {shard : Nat} {op : ESOperation}
    {sl : Slot ESOperation} (hslot : s.pool.roster.slot shard = some sl)
    (hignored : op ∉ sl.toIgnore) :
    s.copiesAt shard op = copiesOf op (s.itemsOf sl.dispatch) := by
  have hrow : (s.pool.worker shard).slot = some sl := hslot
  simp [copiesAt, hrow, hignored]

/-- The part of the invariant about the workers and their tasks. -/
structure Assigned (s : EvaluationService) : Prop where
  sound : s.pool.Sound
  shards_nodup : s.pool.shards.Nodup
  /-- A live copy at a worker is the one the reverse map names. -/
  holder : ∀ shard op, s.copiesAt shard op ≠ [] → s.pool.roster.holder op = some shard
  /-- Every job group at a worker has its task. -/
  task : ∀ shard sl, s.pool.roster.slot shard = some sl →
    ∃ d ∈ s.dispatches, d.id = sl.dispatch ∧ d.shard = shard ∧
      d.items.map Queued.operation = sl.operations
  ids_nodup : (s.dispatches.map Dispatch.id).Nodup
  ids_le : ∀ d ∈ s.dispatches, d.id ≤ s.pool.roster.last
  starts_le : ∀ id, .start id ∈ s.ready → id ≤ s.pool.roster.last
  /-- A dequeue that a live copy at a worker has not seen yet was handed to the loop
  before the task of its job group, so the task starts after it. -/
  ordered : ∀ shard sl op d, s.pool.roster.slot shard = some sl → d ∈ s.dispatches →
    d.id = sl.dispatch → s.copiesAt shard op ≠ [] →
    (d.started = true → .dequeue op ∉ s.ready) ∧
      ∀ before after, s.ready = before ++ .start d.id :: after → .dequeue op ∉ after

/-- What the pool may do besides giving out job groups: slots are freed or get
more ignore marks, and the reverse map keeps naming the slots that are left. -/
structure Shrinks (p q : WorkerPool ESOperation) : Prop where
  sound : q.Sound
  shards_eq : q.shards = p.shards
  last_eq : q.roster.last = p.roster.last
  slot : ∀ shard sl', q.roster.slot shard = some sl' → ∃ sl, p.roster.slot shard = some sl ∧
    sl.dispatch = sl'.dispatch ∧ sl.operations = sl'.operations ∧ sl.toIgnore ⊆ sl'.toIgnore
  holder : ∀ shard sl' op, q.roster.slot shard = some sl' → p.roster.holder op = some shard →
    q.roster.holder op = some shard

theorem shrinks_of_takesBack {p q : WorkerPool ESOperation} {freed : List Nat}
    {lost : List ESOperation} (h : p.TakesBack freed lost q) : Shrinks p q where
  sound := h.sound
  shards_eq := h.shards_eq
  last_eq := by
    rw [h.refines]
    rfl
  slot := by
    intro shard sl' hslot
    rw [h.refines] at hslot
    exact ⟨sl', (Roster.slot_free_eq_some.1 hslot).2, rfl, rfl, List.Subset.refl _⟩
  holder := by
    intro shard sl' op hslot hholder
    rw [h.refines] at hslot ⊢
    exact Roster.holder_free_eq_some.2 ⟨(Roster.slot_free_eq_some.1 hslot).1, hholder⟩

theorem shrinks_ignoreOperation {p : WorkerPool ESOperation} (h : p.Sound) (op : ESOperation) :
    Shrinks p (p.ignoreOperation op).2 := by
  obtain ⟨hsound, hshards, hroster⟩ := h.ignoreOperation op
  cases hholder : p.roster.holder op with
  | none =>
      rw [hholder] at hroster
      refine ⟨hsound, hshards, by rw [hroster], ?_, ?_⟩
      · intro shard sl' hslot
        rw [hroster] at hslot
        exact ⟨sl', hslot, rfl, rfl, List.Subset.refl _⟩
      · intro shard sl' other _ hother
        rw [hroster]
        exact hother
  | some holder =>
      rw [hholder] at hroster
      refine ⟨hsound, hshards, by rw [hroster]; rfl, ?_, ?_⟩
      · intro shard sl' hslot
        rw [hroster] at hslot
        by_cases hs : shard = holder
        · subst hs
          simp only [Roster.ignore, Function.update_self, Option.map_eq_some_iff] at hslot
          obtain ⟨sl, hsl, rfl⟩ := hslot
          exact ⟨sl, hsl, rfl, rfl, List.subset_append_left _ _⟩
        · simp only [Roster.ignore, Function.update_of_ne hs] at hslot
          exact ⟨sl', hslot, rfl, rfl, List.Subset.refl _⟩
      · intro shard sl' other _ hother
        rw [hroster]
        exact hother

/-- A shrinking pool has fewer copies at each worker. -/
theorem copiesAt_sublist {s : EvaluationService} {q : WorkerPool ESOperation}
    (h : Shrinks s.pool q) (shard : Nat) (op : ESOperation) :
    (copiesAt { s with pool := q } shard op).Sublist (s.copiesAt shard op) := by
  by_cases hnil : copiesAt { s with pool := q } shard op = []
  · rw [hnil]
    exact List.nil_sublist _
  · obtain ⟨sl', hslot', hignored, hcopies⟩ := copiesAt_ne_nil hnil
    obtain ⟨sl, hslot, hdispatch, -, hsubset⟩ := h.slot shard sl' hslot'
    rw [hcopies, copiesAt_of_slot hslot (fun hmem => hignored (hsubset hmem)), hdispatch]
    exact List.Sublist.refl _

theorem Assigned.shrink {s : EvaluationService} (h : s.Assigned) {q : WorkerPool ESOperation}
    (hq : Shrinks s.pool q) : Assigned { s with pool := q } where
  sound := hq.sound
  shards_nodup := by
    show q.shards.Nodup
    rw [hq.shards_eq]
    exact h.shards_nodup
  holder := by
    intro shard op hcopies
    obtain ⟨sl', hslot', -, -⟩ := copiesAt_ne_nil hcopies
    have hold : s.copiesAt shard op ≠ [] := by
      intro hnil
      exact hcopies (List.sublist_nil.1 (hnil ▸ copiesAt_sublist hq shard op))
    exact hq.holder shard sl' op hslot' (h.holder shard op hold)
  task := by
    intro shard sl' hslot'
    obtain ⟨sl, hslot, hdispatch, hops, -⟩ := hq.slot shard sl' hslot'
    rw [← hdispatch, ← hops]
    exact h.task shard sl hslot
  ids_nodup := h.ids_nodup
  ids_le := by
    intro d hd
    show d.id ≤ q.roster.last
    rw [hq.last_eq]
    exact h.ids_le d hd
  starts_le := by
    intro id hid
    show id ≤ q.roster.last
    rw [hq.last_eq]
    exact h.starts_le id hid
  ordered := by
    intro shard sl' op d hslot' hd hid hcopies
    obtain ⟨sl, hslot, hdispatch, -, -⟩ := hq.slot shard sl' hslot'
    have hold : s.copiesAt shard op ≠ [] := by
      intro hnil
      exact hcopies (List.sublist_nil.1 (hnil ▸ copiesAt_sublist hq shard op))
    exact h.ordered shard sl op d hslot hd (hid.trans hdispatch.symm) hold

theorem flatMap_sublist {ι : Type} {f g : ι → List Nat} (h : ∀ i, (f i).Sublist (g i))
    (l : List ι) : (l.flatMap f).Sublist (l.flatMap g) := by
  induction l with
  | nil => exact List.Sublist.refl _
  | cons i rest ih =>
      rw [List.flatMap_cons, List.flatMap_cons]
      exact (h i).append ih

/-- A shrinking pool only loses copies. -/
theorem held_shrink {s : EvaluationService} {q : WorkerPool ESOperation}
    (h : Shrinks s.pool q) (op : ESOperation) :
    (ledger { s with pool := q } op).held ≤ (s.ledger op).held := by
  have hassigned : (copiesAssigned { s with pool := q } op).Sublist (s.copiesAssigned op) := by
    unfold copiesAssigned
    show (q.shards.flatMap _).Sublist _
    rw [h.shards_eq]
    exact flatMap_sublist (fun shard => copiesAt_sublist h shard op) _
  exact Multiset.coe_le.2 (List.Sublist.subperm ((List.Sublist.refl _).append hassigned))

end EvaluationService

end Service
end ContestManagement
