import ContestManagement.Service.Roster

/-!
# The worker pool keeps its roster

`WorkerPool.Sound` is the invariant of the pool's dictionaries.  Every method
keeps it, and changes the roster by `Roster.assign`, `Roster.ignore` or
`Roster.free`; from there on nothing about the dictionaries is needed.
-/

namespace ContestManagement
namespace Service

variable {Op : Type}

/-- Whether `_operations[shard]` is a list. -/
def Assignment.isBusy : Assignment Op → Bool
  | .busy _ => true
  | _ => false

theorem Assignment.isBusy_iff {a : Assignment Op} : a.isBusy = true ↔ ∃ ops, a = .busy ops := by
  cases a <;> simp [Assignment.isBusy]

/-- The job group of a row. -/
def Worker.slot (w : Worker Op) : Option (Slot Op) :=
  match w.operations, w.currentDispatch with
  | .busy ops, some d => some ⟨d, ops, w.operationsToIgnore⟩
  | _, _ => none

/-- The parallel dictionaries agree on one row. -/
structure Worker.Ok (w : Worker Op) : Prop where
  busy_start : w.operations.isBusy = w.startTime.isSome
  busy_dispatch : w.operations.isBusy = w.currentDispatch.isSome
  ignore : w.ignore = false
  scheduleDisabling : w.scheduleDisabling = false
  idle_toIgnore : w.operations.isBusy = false → w.operationsToIgnore = []

theorem Worker.ok_fresh : (Worker.fresh Op).Ok := by
  constructor <;> simp [Worker.fresh, Assignment.isBusy]

/-- A row with a start time is busy. -/
theorem Worker.Ok.busy_of_startTime {w : Worker Op} (h : w.Ok) {start : Int}
    (hstart : w.startTime = some start) : ∃ ops, w.operations = .busy ops := by
  rw [← Assignment.isBusy_iff, h.busy_start, hstart]
  rfl

theorem Worker.slot_fresh : (Worker.fresh Op).slot = none := rfl

theorem Worker.slot_of_idle {w : Worker Op} (h : w.operations.isBusy = false) : w.slot = none := by
  cases hops : w.operations with
  | inactive => simp [Worker.slot, hops]
  | disabled => simp [Worker.slot, hops]
  | busy ops => simp [hops, Assignment.isBusy] at h

theorem Worker.slot_eq_some {w : Worker Op} {sl : Slot Op} :
    w.slot = some sl ↔ w.operations = .busy sl.operations ∧ w.currentDispatch = some sl.dispatch ∧
      w.operationsToIgnore = sl.toIgnore := by
  cases hops : w.operations <;> cases hdispatch : w.currentDispatch <;>
    simp [Worker.slot, hops, hdispatch, Slot.ext_iff]
  tauto

/-- A busy row of a pool that agrees with itself is a job group. -/
theorem Worker.Ok.slot_of_busy {w : Worker Op} (h : w.Ok) {ops : List Op}
    (hops : w.operations = .busy ops) :
    ∃ d, w.currentDispatch = some d ∧ w.slot = some ⟨d, ops, w.operationsToIgnore⟩ := by
  have hsome : w.currentDispatch.isSome = true := by
    rw [← h.busy_dispatch, hops]
    rfl
  obtain ⟨d, hd⟩ := Option.isSome_iff_exists.1 hsome
  exact ⟨d, hd, by simp [Worker.slot, hops, hd]⟩

/-- What `release_worker` answers for a busy row. -/
def Worker.release [DecidableEq Op] (w : Worker Op) : Release Op :=
  if w.ignore = false ∧ w.operationsToIgnore ≠ [] then .partly w.operationsToIgnore
  else .verdict w.ignore

/-- The same for the job group. -/
def Slot.release [DecidableEq Op] (sl : Slot Op) : Release Op :=
  if sl.toIgnore ≠ [] then .partly sl.toIgnore else .verdict false

namespace WorkerPool

/-- The roster that the dictionaries hold. -/
def roster (p : WorkerPool Op) : Roster Op where
  slot := fun shard => (p.worker shard).slot
  holder := p.operationsReverse
  last := p.lastDispatchId

/-- The invariant of the pool. -/
structure Sound (p : WorkerPool Op) : Prop where
  row : ∀ shard, (p.worker shard).Ok
  outside : ∀ shard, shard ∉ p.shards → (p.worker shard).operations.isBusy = false
  roster : p.roster.Consistent

theorem roster_setWorker (p : WorkerPool Op) (shard : Nat) (w : Worker Op) :
    (p.setWorker shard w).roster =
      { p.roster with slot := Function.update p.roster.slot shard w.slot } := by
  ext s
  · by_cases hs : s = shard
    · subst hs
      simp [roster, setWorker]
    · simp [roster, setWorker, Function.update_of_ne hs]
  · rfl
  · rfl

/-- Rewriting a row without touching its job group leaves the roster alone. -/
theorem roster_setWorker_of_slot_eq {p : WorkerPool Op} {shard : Nat} {w : Worker Op}
    (h : w.slot = (p.worker shard).slot) : (p.setWorker shard w).roster = p.roster := by
  rw [roster_setWorker, h]
  have hsame : Function.update p.roster.slot shard (p.worker shard).slot = p.roster.slot :=
    Function.update_eq_self shard p.roster.slot
  rw [hsame]

/-- The same for the whole invariant, when the new row is busy just when the old
one was. -/
theorem Sound.setWorker {p : WorkerPool Op} (h : p.Sound) {shard : Nat} {w : Worker Op}
    (hok : w.Ok) (hslot : w.slot = (p.worker shard).slot)
    (hbusy : w.operations.isBusy = (p.worker shard).operations.isBusy) :
    (p.setWorker shard w).Sound where
  row := by
    intro s
    by_cases hs : s = shard
    · subst hs
      simpa [WorkerPool.setWorker] using hok
    · simpa [WorkerPool.setWorker, Function.update_of_ne hs] using h.row s
  outside := by
    intro s hmem
    by_cases hs : s = shard
    · subst hs
      simpa [WorkerPool.setWorker, hbusy] using h.outside s hmem
    · simpa [WorkerPool.setWorker, Function.update_of_ne hs] using h.outside s hmem
  roster := by
    rw [roster_setWorker_of_slot_eq hslot]
    exact h.roster

theorem Sound.mem_shards {p : WorkerPool Op} (h : p.Sound) {shard : Nat}
    (hbusy : (p.worker shard).operations.isBusy = true) : shard ∈ p.shards := by
  by_contra hmem
  rw [h.outside shard hmem] at hbusy
  cases hbusy

/-! ### Adding workers -/

theorem worker_withWorkers (count shard : Nat) :
    (withWorkers Op count).worker shard = Worker.fresh Op := by
  have hfold : ∀ (shards : List Nat) (p : WorkerPool Op),
      (∀ s, p.worker s = Worker.fresh Op) →
      ∀ s, (shards.foldl addWorker p).worker s = Worker.fresh Op := by
    intro shards
    induction shards with
    | nil => exact fun p hp => hp
    | cons shard rest ih =>
        intro p hp
        refine ih _ ?_
        intro s
        by_cases hs : s = shard
        · subst hs
          simp [addWorker, setWorker]
        · simp [addWorker, setWorker, Function.update_of_ne hs, hp s]
  exact hfold _ _ (fun _ => rfl) shard

theorem shards_withWorkers (count : Nat) : (withWorkers Op count).shards = List.range count := by
  have hfold : ∀ (shards : List Nat) (p : WorkerPool Op),
      (shards.foldl addWorker p).shards = p.shards ++ shards := by
    intro shards
    induction shards with
    | nil => simp
    | cons shard rest ih =>
        intro p
        rw [List.foldl_cons, ih]
        simp [addWorker]
  rw [withWorkers, hfold]
  rfl

theorem roster_withWorkers (count : Nat) : (withWorkers Op count).roster = Roster.idle Op := by
  have hfold : ∀ (shards : List Nat) (p : WorkerPool Op),
      p.operationsReverse = (fun _ => none) → p.lastDispatchId = 0 →
      (shards.foldl addWorker p).operationsReverse = (fun _ => none) ∧
        (shards.foldl addWorker p).lastDispatchId = 0 := by
    intro shards
    induction shards with
    | nil => exact fun p hrev hlast => ⟨hrev, hlast⟩
    | cons shard rest ih => exact fun p hrev hlast => ih _ hrev hlast
  obtain ⟨hrev, hlast⟩ := hfold (List.range count) (empty Op) rfl rfl
  ext s
  · simp [roster, Roster.idle, worker_withWorkers, Worker.slot_fresh]
  · show (withWorkers Op count).operationsReverse s = _ ↔ _
    rw [withWorkers, hrev]
    rfl
  · exact hlast

theorem sound_withWorkers (count : Nat) : (withWorkers Op count).Sound where
  row := by
    intro shard
    rw [worker_withWorkers]
    exact Worker.ok_fresh
  outside := by
    intro shard _
    rw [worker_withWorkers]
    rfl
  roster := by
    rw [roster_withWorkers]
    exact Roster.consistent_idle

/-! ### Releasing a worker -/

variable [DecidableEq Op]

/-- The loop of `_remove_operations` drops the entries that point to the shard. -/
theorem foldl_remove_apply (shard : Nat) (ops : List Op) (reverse : Op → Option Nat) (op : Op) :
    ops.foldl (fun reverse op =>
        if reverse op = some shard then Function.update reverse op none else reverse) reverse op =
      if op ∈ ops ∧ reverse op = some shard then none else reverse op := by
  induction ops generalizing reverse with
  | nil => simp
  | cons first rest ih =>
      rw [List.foldl_cons, ih]
      by_cases hfirst : reverse first = some shard
      · by_cases hop : op = first
        · subst hop
          simp [hfirst]
        · simp [hfirst, hop]
      · by_cases hop : op = first
        · subst hop
          simp [hfirst]
        · simp [hfirst, hop]

/-- The loop of `_add_operations` points every operation to the shard. -/
theorem foldl_add_apply (shard : Nat) (ops : List Op) (reverse : Op → Option Nat) (op : Op) :
    ops.foldl (fun reverse op => Function.update reverse op (some shard)) reverse op =
      if op ∈ ops then some shard else reverse op := by
  induction ops generalizing reverse with
  | nil => simp
  | cons first rest ih =>
      rw [List.foldl_cons, ih]
      by_cases hop : op = first
      · subst hop
        simp
      · simp [hop]

/-- What `release_worker` does to a busy shard. -/
structure Freed (p : WorkerPool Op) (shard : Nat) (ops : List Op) (q : WorkerPool Op) : Prop where
  shards : q.shards = p.shards
  last : q.lastDispatchId = p.lastDispatchId
  others : ∀ s, s ≠ shard → q.worker s = p.worker s
  ok : (q.worker shard).Ok
  idle : (q.worker shard).operations.isBusy = false
  reverse : ∀ op, q.operationsReverse op =
    if op ∈ ops ∧ p.operationsReverse op = some shard then none else p.operationsReverse op

theorem releaseWorker_busy {p : WorkerPool Op} {shard : Nat} {ops : List Op}
    {dispatchId : Option Nat} (hmem : shard ∈ p.shards)
    (hops : (p.worker shard).operations = .busy ops)
    (hdispatch : dispatchId = none ∨ dispatchId = (p.worker shard).currentDispatch) :
    ∃ q, p.releaseWorker shard dispatchId = (.ok (p.worker shard).release, q) ∧
      Freed p shard ops q := by
  have hcurrent : ¬(dispatchId ≠ none ∧ dispatchId ≠
      if shard ∈ p.shards then (p.worker shard).currentDispatch else none) := by
    rw [if_pos hmem]
    tauto
  refine ⟨(p.releaseWorker shard dispatchId).2, ?_, ?_⟩
  · simp only [releaseWorker, if_neg hcurrent, if_neg (not_not.2 hmem), hops, Worker.release]
    split_ifs <;> rfl
  · simp only [releaseWorker, if_neg hcurrent, if_neg (not_not.2 hmem), hops]
    rw [apply_ite Prod.snd, ite_self]
    by_cases hschedule : (p.worker shard).scheduleDisabling = true
    · rw [if_pos hschedule]
      refine ⟨by simp [removeOperations, setWorker], by simp [removeOperations, setWorker], ?_,
        ?_, by simp [removeOperations, setWorker, Assignment.isBusy], ?_⟩
      · intro s hs
        simp [removeOperations, setWorker, hs]
      · constructor <;> simp [removeOperations, setWorker, Assignment.isBusy]
      · intro op
        simp [removeOperations, setWorker, foldl_remove_apply]
    · rw [if_neg hschedule]
      refine ⟨by simp [removeOperations, setWorker], by simp [removeOperations, setWorker], ?_,
        ?_, by simp [removeOperations, setWorker, Assignment.isBusy], ?_⟩
      · intro s hs
        simp [removeOperations, setWorker, hs]
      · constructor <;> simp [removeOperations, setWorker, Assignment.isBusy, hschedule]
      · intro op
        simp [removeOperations, setWorker, foldl_remove_apply]

/-- Releasing a busy shard frees it in the roster.  The flags of its own row are
not assumed to be clear: the recoveries set them just before they release. -/
theorem Freed.refines {p q : WorkerPool Op} {shard : Nat} {ops : List Op}
    (hfreed : Freed p shard ops q) (hops : (p.worker shard).operations = .busy ops)
    (hroster : p.roster.Consistent) : q.roster = p.roster.free [shard] := by
  ext s
  · by_cases hs : s = shard
    · subst hs
      simp [WorkerPool.roster, Roster.free, Worker.slot_of_idle hfreed.idle]
    · simp [WorkerPool.roster, Roster.free, hs, hfreed.others s hs]
  · rename_i shard'
    have hholds : p.operationsReverse s = some shard → s ∈ ops := by
      intro hreverse
      obtain ⟨sl, hslot, hmem⟩ := hroster.holder_holds s shard hreverse
      have hbusy := (Worker.slot_eq_some.1 hslot).1
      rw [hops, Assignment.busy.injEq] at hbusy
      exact hbusy ▸ hmem
    show q.operationsReverse s = some shard' ↔ (p.roster.free [shard]).holder s = some shard'
    rw [hfreed.reverse s, Roster.holder_free_eq_some]
    show _ ↔ _ ∧ p.operationsReverse s = some shard'
    by_cases hshard : p.operationsReverse s = some shard
    · simp [hshard, hholds hshard, eq_comm]
    · simp only [hshard, and_false, if_false, List.mem_singleton, iff_and_self]
      rintro hreverse rfl
      exact hshard hreverse
  · exact hfreed.last

theorem Freed.sound {p q : WorkerPool Op} {shard : Nat} {ops : List Op}
    (hfreed : Freed p shard ops q) (hops : (p.worker shard).operations = .busy ops)
    (hothers : ∀ s, s ≠ shard → (p.worker s).Ok)
    (houtside : ∀ s, s ∉ p.shards → (p.worker s).operations.isBusy = false)
    (hroster : p.roster.Consistent) : q.Sound where
  row := by
    intro s
    by_cases hs : s = shard
    · subst hs
      exact hfreed.ok
    · rw [hfreed.others s hs]
      exact hothers s hs
  outside := by
    intro s hmem
    rw [hfreed.shards] at hmem
    by_cases hs : s = shard
    · subst hs
      exact hfreed.idle
    · rw [hfreed.others s hs]
      exact houtside s hmem
  roster := by
    rw [hfreed.refines hops hroster]
    exact hroster.free [shard]

/-- What a recovery does: it frees some shards, and what it returns was held by
one of them and not ignored there. -/
structure TakesBack (p : WorkerPool Op) (shards : List Nat) (lost : List Op)
    (q : WorkerPool Op) : Prop where
  sound : q.Sound
  shards_eq : q.shards = p.shards
  refines : q.roster = p.roster.free shards
  held : ∀ op ∈ lost, ∃ shard ∈ shards, ∃ sl, p.roster.slot shard = some sl ∧ op ∈ sl.operations

omit [DecidableEq Op] in
theorem TakesBack.trans {p q r : WorkerPool Op} {first second : List Nat} {lost lost' : List Op}
    (hpq : TakesBack p first lost q) (hqr : TakesBack q second lost' r) :
    TakesBack p (first ++ second) (lost ++ lost') r where
  sound := hqr.sound
  shards_eq := hqr.shards_eq.trans hpq.shards_eq
  refines := by rw [hqr.refines, hpq.refines, Roster.free_free]
  held := by
    intro op hop
    rcases List.mem_append.1 hop with hop | hop
    · obtain ⟨shard, hshard, hsl⟩ := hpq.held op hop
      exact ⟨shard, List.mem_append_left _ hshard, hsl⟩
    · obtain ⟨shard, hshard, sl, hslot, hmem⟩ := hqr.held op hop
      rw [hpq.refines] at hslot
      exact ⟨shard, List.mem_append_right _ hshard, sl, (Roster.slot_free_eq_some.1 hslot).2, hmem⟩

omit [DecidableEq Op] in
theorem Sound.takesBack_nil {p : WorkerPool Op} (h : p.Sound) : TakesBack p [] [] p where
  sound := h
  shards_eq := rfl
  refines := (Roster.free_nil _).symm
  held := by simp

/-- `Freed` says nothing about the old row of the shard, so flags written just
before the release do not matter. -/
theorem Freed.of_setWorker {p q : WorkerPool Op} {shard : Nat} {ops : List Op} {w : Worker Op}
    (h : Freed (p.setWorker shard w) shard ops q) : Freed p shard ops q where
  shards := h.shards
  last := h.last
  others := by
    intro s hs
    rw [h.others s hs]
    exact Function.update_of_ne hs ..
  ok := h.ok
  idle := h.idle
  reverse := h.reverse

theorem Sound.takesBack_of_freed {p q : WorkerPool Op} (h : p.Sound) {shard : Nat} {ops : List Op}
    (hops : (p.worker shard).operations = .busy ops) (hfreed : Freed p shard ops q)
    {lost : List Op} (hlost : ∀ op ∈ lost, op ∈ ops) : TakesBack p [shard] lost q where
  sound := hfreed.sound hops (fun s _ => h.row s) h.outside h.roster
  shards_eq := hfreed.shards
  refines := hfreed.refines hops h.roster
  held := by
    intro op hop
    obtain ⟨d, -, hslot⟩ := (h.row shard).slot_of_busy hops
    exact ⟨shard, List.mem_singleton_self shard, _, hslot, hlost op hop⟩

/-- Writing flags to a busy row and releasing the shard, as the recoveries do. -/
theorem Sound.release_freed {p : WorkerPool Op} (h : p.Sound) {shard : Nat} {ops : List Op}
    (hops : (p.worker shard).operations = .busy ops) (w : Worker Op)
    (hwops : w.operations = .busy ops) :
    ∃ q, (p.setWorker shard w).releaseWorker shard none = (.ok w.release, q) ∧
      Freed p shard ops q := by
  have hmem : shard ∈ (p.setWorker shard w).shards := by
    apply h.mem_shards
    rw [hops]
    rfl
  have hrow : (p.setWorker shard w).worker shard = w := Function.update_self ..
  obtain ⟨q, hq, hfreed⟩ := releaseWorker_busy hmem (hrow ▸ hwops) (.inl rfl)
  rw [hrow] at hq
  exact ⟨q, hq, hfreed.of_setWorker⟩

theorem Sound.release_flagged {p : WorkerPool Op} (h : p.Sound) {shard : Nat} {ops : List Op}
    (hops : (p.worker shard).operations = .busy ops) (w : Worker Op)
    (hwops : w.operations = .busy ops) {lost : List Op} (hlost : ∀ op ∈ lost, op ∈ ops) :
    ∃ q, (p.setWorker shard w).releaseWorker shard none = (.ok w.release, q) ∧
      TakesBack p [shard] lost q := by
  obtain ⟨q, hq, hfreed⟩ := h.release_freed hops w hwops
  exact ⟨q, hq, h.takesBack_of_freed hops hfreed hlost⟩

/-- `release_worker(shard)` of a busy shard whose row is left as it is. -/
theorem Sound.release_plain {p : WorkerPool Op} (h : p.Sound) {shard : Nat} {ops : List Op}
    (hops : (p.worker shard).operations = .busy ops) {dispatchId : Option Nat}
    (hdispatch : dispatchId = none ∨ dispatchId = (p.worker shard).currentDispatch) :
    ∃ q, p.releaseWorker shard dispatchId = (.ok (p.worker shard).release, q) ∧
      TakesBack p [shard] ops q := by
  have hmem : shard ∈ p.shards := by
    apply h.mem_shards
    rw [hops]
    rfl
  obtain ⟨q, hq, hfreed⟩ := releaseWorker_busy hmem hops hdispatch
  exact ⟨q, hq, h.takesBack_of_freed hops hfreed (fun _ hop => hop)⟩

/-! ### The recoveries -/

theorem checkTimeoutsLoop_takesBack (now : Int) (shards : List Nat) (lost : List Op)
    {p : WorkerPool Op} (h : p.Sound) :
    ∃ freed lost' q, checkTimeoutsLoop now shards lost p = (.ok (lost ++ lost'), q) ∧
      TakesBack p freed lost' q := by
  induction shards generalizing lost p with
  | nil => exact ⟨[], [], p, by simp [checkTimeoutsLoop], h.takesBack_nil⟩
  | cons shard rest ih =>
      cases hstart : (p.worker shard).startTime with
      | none =>
          obtain ⟨freed, lost', q, hq, hback⟩ := ih lost h
          exact ⟨freed, lost', q, by simp [checkTimeoutsLoop, hstart, hq], hback⟩
      | some start =>
          by_cases hexpired : (p.worker shard).expired start now = true
          · -- The start time is set, so the row is busy and the assertion holds.
            obtain ⟨ops, hops⟩ := (h.row shard).busy_of_startTime hstart
            have hignore : (p.worker shard).ignore = false := (h.row shard).ignore
            obtain ⟨mid, hmid, hfirst⟩ := h.release_flagged hops
              ((p.worker shard).timedOut now) hops
              (fun op (hop : op ∈ ops.filter fun op =>
                op ∉ (p.worker shard).operationsToIgnore) => (List.mem_filter.1 hop).1)
            obtain ⟨freed, lost', q, hq, hback⟩ := ih
              (lost ++ ops.filter fun op => op ∉ (p.worker shard).operationsToIgnore)
              hfirst.sound
            refine ⟨[shard] ++ freed, _, q, ?_, hfirst.trans hback⟩
            simp only [checkTimeoutsLoop, hstart, hexpired, Bool.not_true, hops, hignore,
              Bool.false_eq_true, if_false, hmid, hq, List.append_assoc]
          · obtain ⟨freed, lost', q, hq, hback⟩ := ih lost h
            exact ⟨freed, lost', q, by simp [checkTimeoutsLoop, hstart, hexpired, hq], hback⟩

/-- `check_timeouts` always returns, so its assertion never fails. -/
theorem checkTimeouts_takesBack {p : WorkerPool Op} (h : p.Sound) (now : Int) :
    ∃ freed lost q, p.checkTimeouts now = (.ok lost, q) ∧ TakesBack p freed lost q := by
  obtain ⟨freed, lost, q, hq, hback⟩ := checkTimeoutsLoop_takesBack now p.shards [] h
  exact ⟨freed, lost, q, by simpa [checkTimeouts] using hq, hback⟩

theorem checkConnectionsLoop_takesBack (shards : List Nat) (lost : List Op)
    {p : WorkerPool Op} (h : p.Sound) :
    ∃ freed lost' q, checkConnectionsLoop shards lost p = (.ok (lost ++ lost'), q) ∧
      TakesBack p freed lost' q := by
  induction shards generalizing lost p with
  | nil => exact ⟨[], [], p, by simp [checkConnectionsLoop], h.takesBack_nil⟩
  | cons shard rest ih =>
      cases hops : (p.worker shard).operations with
      | inactive =>
          obtain ⟨freed, lost', q, hq, hback⟩ := ih lost h
          exact ⟨freed, lost', q, by simp [checkConnectionsLoop, hops, hq], hback⟩
      | disabled =>
          obtain ⟨freed, lost', q, hq, hback⟩ := ih lost h
          exact ⟨freed, lost', q, by simp [checkConnectionsLoop, hops, hq], hback⟩
      | busy ops =>
          cases hconnected : (p.worker shard).connected with
          | true =>
              obtain ⟨freed, lost', q, hq, hback⟩ := ih lost h
              exact ⟨freed, lost', q, by simp [checkConnectionsLoop, hops, hconnected, hq], hback⟩
          | false =>
              obtain ⟨mid, hmid, hfirst⟩ := h.release_plain hops (.inl rfl)
              obtain ⟨freed, lost', q, hq, hback⟩ := ih (lost ++ ops) hfirst.sound
              refine ⟨[shard] ++ freed, _, q, ?_, hfirst.trans hback⟩
              simp [checkConnectionsLoop, hops, hconnected, (h.row shard).ignore, hmid, hq]

theorem checkConnections_takesBack {p : WorkerPool Op} (h : p.Sound) :
    ∃ freed lost q, p.checkConnections = (.ok lost, q) ∧ TakesBack p freed lost q := by
  obtain ⟨freed, lost, q, hq, hback⟩ := checkConnectionsLoop_takesBack p.shards [] h
  exact ⟨freed, lost, q, by simpa [checkConnections] using hq, hback⟩

/-! ### The methods that leave the roster alone -/

omit [DecidableEq Op] in
theorem Sound.quiet_setWorker {p : WorkerPool Op} (h : p.Sound) {shard : Nat} {w : Worker Op}
    (hok : w.Ok) (hslot : w.slot = (p.worker shard).slot)
    (hbusy : w.operations.isBusy = (p.worker shard).operations.isBusy) :
    TakesBack p [] [] (p.setWorker shard w) where
  sound := h.setWorker hok hslot hbusy
  shards_eq := rfl
  refines := by rw [roster_setWorker_of_slot_eq hslot, Roster.free_nil]
  held := by simp

omit [DecidableEq Op] in
/-- The event that wakes up the executor is no part of the roster. -/
theorem TakesBack.workersAvailable {p q : WorkerPool Op} {freed : List Nat} {lost : List Op}
    (h : TakesBack p freed lost q) (available : Bool) :
    TakesBack p freed lost { q with workersAvailable := available } where
  sound := ⟨h.sound.row, h.sound.outside, h.sound.roster⟩
  shards_eq := h.shards_eq
  refines := h.refines
  held := h.held

omit [DecidableEq Op] in
theorem Sound.quiet_clocks {p : WorkerPool Op} (h : p.Sound) (shard : Nat)
    (answeredAt dispatchedAt : Option Int) (timeout : Int) :
    TakesBack p [] [] (p.setWorker shard { p.worker shard with
      answeredAt := answeredAt
      dispatchedAt := dispatchedAt
      timeout := timeout }) := by
  have hrow := h.row shard
  exact h.quiet_setWorker ⟨hrow.busy_start, hrow.busy_dispatch, hrow.ignore,
    hrow.scheduleDisabling, hrow.idle_toIgnore⟩ rfl rfl

omit [DecidableEq Op] in
theorem Sound.markAnswered {p : WorkerPool Op} (h : p.Sound) (shard : Nat)
    (dispatchId : Option Nat) (now : Int) :
    TakesBack p [] [] (p.markAnswered shard dispatchId now) := by
  cases dispatchId with
  | none => exact h.takesBack_nil
  | some d =>
      unfold WorkerPool.markAnswered
      by_cases hcurrent : (p.worker shard).currentDispatch = some d
      · simp only [if_pos hcurrent]
        exact h.quiet_clocks shard _ _ _
      · simp only [if_neg hcurrent]
        exact h.takesBack_nil

omit [DecidableEq Op] in
theorem Sound.setTimeout {p : WorkerPool Op} (h : p.Sound) (shard : Nat)
    (dispatchId : Option Nat) (timeout now : Int) :
    TakesBack p [] [] (p.setTimeout shard dispatchId timeout now) := by
  cases dispatchId with
  | none => exact h.takesBack_nil
  | some d =>
      unfold WorkerPool.setTimeout
      by_cases hcurrent : (p.worker shard).currentDispatch = some d
      · simp only [if_pos hcurrent]
        exact h.quiet_clocks shard _ _ _
      · simp only [if_neg hcurrent]
        exact h.takesBack_nil

omit [DecidableEq Op] in
/-- Moving an idle row between inactive and disabled. -/
theorem Sound.quiet_idle {p : WorkerPool Op} (h : p.Sound) {shard : Nat} {w : Worker Op}
    (hidle : (p.worker shard).operations.isBusy = false) (hops : w.operations.isBusy = false)
    (hstart : w.startTime = (p.worker shard).startTime)
    (hdispatch : w.currentDispatch = (p.worker shard).currentDispatch)
    (hignore : w.ignore = (p.worker shard).ignore)
    (hschedule : w.scheduleDisabling = (p.worker shard).scheduleDisabling)
    (htoIgnore : w.operationsToIgnore = []) :
    TakesBack p [] [] (p.setWorker shard w) := by
  have hrow := h.row shard
  refine h.quiet_setWorker ⟨?_, ?_, ?_, ?_, fun _ => htoIgnore⟩ ?_ ?_
  · rw [hops, hstart, ← hrow.busy_start, hidle]
  · rw [hops, hdispatch, ← hrow.busy_dispatch, hidle]
  · rw [hignore, hrow.ignore]
  · rw [hschedule, hrow.scheduleDisabling]
  · rw [Worker.slot_of_idle hops, Worker.slot_of_idle hidle]
  · rw [hops, hidle]

omit [DecidableEq Op] in
theorem Sound.enableWorker {p : WorkerPool Op} (h : p.Sound) (shard : Nat) :
    TakesBack p [] [] (p.enableWorker shard).2 := by
  by_cases hmem : shard ∈ p.shards
  · cases hops : (p.worker shard).operations with
    | disabled =>
        simp only [WorkerPool.enableWorker, if_neg (not_not.2 hmem), hops]
        apply TakesBack.workersAvailable
        apply h.quiet_idle
        · rw [hops]
          rfl
        all_goals rfl
    | inactive =>
        simp only [WorkerPool.enableWorker, if_neg (not_not.2 hmem), hops]
        exact h.takesBack_nil
    | busy ops =>
        simp only [WorkerPool.enableWorker, if_neg (not_not.2 hmem), hops]
        exact h.takesBack_nil
  · simp only [WorkerPool.enableWorker, if_pos hmem]
    exact h.takesBack_nil

omit [DecidableEq Op] in
theorem Sound.quiet_connected {p : WorkerPool Op} (h : p.Sound) (shard : Nat) (connected : Bool) :
    TakesBack p [] [] (p.setWorker shard { p.worker shard with connected := connected }) := by
  have hrow := h.row shard
  exact h.quiet_setWorker ⟨hrow.busy_start, hrow.busy_dispatch, hrow.ignore,
    hrow.scheduleDisabling, hrow.idle_toIgnore⟩ rfl rfl

omit [DecidableEq Op] in
theorem Sound.onWorkerDisconnected {p : WorkerPool Op} (h : p.Sound) (shard : Nat) :
    TakesBack p [] [] (p.onWorkerDisconnected shard) :=
  h.quiet_connected shard false

theorem Sound.onWorkerConnected {p : WorkerPool Op} (h : p.Sound) (shard : Nat) :
    TakesBack p [] [] (p.onWorkerConnected shard) := by
  have hconnected := h.quiet_connected shard true
  unfold WorkerPool.onWorkerConnected
  refine TakesBack.workersAvailable ?_ true
  split_ifs
  · exact hconnected.trans (hconnected.sound.enableWorker shard)
  · exact hconnected

/-! ### Disabling a worker -/

theorem Sound.disableWorker {p : WorkerPool Op} (h : p.Sound) (shard : Nat) :
    ∃ freed lost, TakesBack p freed lost (p.disableWorker shard).2 ∧
      ∀ returned, (p.disableWorker shard).1 = .ok returned → returned = lost := by
  by_cases hmem : shard ∈ p.shards
  · -- The two bookkeeping fields are cleared first, also when the call then raises.
    have hrow := h.row shard
    have hfirst : TakesBack p [] [] (p.setWorker shard { p.worker shard with
        disabledByTimeout := false
        disabledAt := none }) :=
      h.quiet_setWorker ⟨hrow.busy_start, hrow.busy_dispatch, hrow.ignore,
        hrow.scheduleDisabling, hrow.idle_toIgnore⟩ rfl rfl
    simp only [WorkerPool.disableWorker, if_neg (not_not.2 hmem)]
    generalize p.setWorker shard { p.worker shard with
      disabledByTimeout := false
      disabledAt := none } = cleared at hfirst
    cases hops : (cleared.worker shard).operations with
    | inactive =>
        refine ⟨[], [], hfirst.trans ?_, by simp⟩
        have hidle : (cleared.worker shard).operations.isBusy = false := by
          rw [hops]
          rfl
        exact hfirst.sound.quiet_idle hidle rfl rfl rfl rfl rfl
          ((hfirst.sound.row shard).idle_toIgnore hidle)
    | disabled => exact ⟨[], [], hfirst, by simp⟩
    | busy ops =>
        have hignore := (hfirst.sound.row shard).ignore
        obtain ⟨q, hq, hback⟩ := hfirst.sound.release_flagged hops
          (cleared.worker shard).scheduledForDisabling hops
          (fun op (hop : op ∈ ops.filter fun op =>
            op ∉ (cleared.worker shard).operationsToIgnore) => (List.mem_filter.1 hop).1)
        refine ⟨[shard], ops.filter fun op => op ∉ (cleared.worker shard).operationsToIgnore,
          ?_, ?_⟩
        · simp only [hq]
          exact hfirst.trans hback
        · simp only [hq, hignore]
          rintro returned hreturned
          simpa using hreturned.symm
  · refine ⟨[], [], ?_, ?_⟩
    · simp only [WorkerPool.disableWorker, if_pos hmem]
      exact h.takesBack_nil
    · simp [WorkerPool.disableWorker, hmem]

/-! ### Acquiring, answering, ignoring -/

/-- What `acquire_worker` does to the shard it picks. -/
structure Given (p : WorkerPool Op) (shard : Nat) (ops : List Op) (q : WorkerPool Op) : Prop where
  shards : q.shards = p.shards
  last : q.lastDispatchId = p.lastDispatchId + 1
  others : ∀ s, s ≠ shard → q.worker s = p.worker s
  ok : (q.worker shard).Ok
  slot : (q.worker shard).slot = some ⟨p.lastDispatchId + 1, ops, []⟩
  reverse : ∀ op, q.operationsReverse op =
    if op ∈ ops then some shard else p.operationsReverse op

theorem Given.refines {p q : WorkerPool Op} {shard : Nat} {ops : List Op}
    (h : Given p shard ops q) : q.roster = p.roster.assign shard ops := by
  ext s
  · by_cases hs : s = shard
    · subst hs
      simp [WorkerPool.roster, Roster.assign, h.slot]
    · simp [WorkerPool.roster, Roster.assign, hs, h.others s hs]
  · simp [WorkerPool.roster, Roster.assign, h.reverse]
  · exact h.last

theorem Given.sound {p q : WorkerPool Op} {shard : Nat} {ops : List Op} (h : Given p shard ops q)
    (hp : p.Sound) (hidle : (p.worker shard).operations.isBusy = false)
    (hmem : shard ∈ p.shards) : q.Sound where
  row := by
    intro s
    by_cases hs : s = shard
    · subst hs
      exact h.ok
    · rw [h.others s hs]
      exact hp.row s
  outside := by
    intro s hs
    rw [h.shards] at hs
    have hne : s ≠ shard := by
      rintro rfl
      exact hs hmem
    rw [h.others s hne]
    exact hp.outside s hs
  roster := by
    rw [h.refines]
    exact hp.roster.assign (Worker.slot_of_idle hidle) ops

/-- Giving a job group to an inactive row of a sound pool. -/
theorem Sound.acquire_given {p : WorkerPool Op} (h : p.Sound) {shard : Nat}
    (hinactive : (p.worker shard).operations = .inactive) (ops : List Op) (now : Int) :
    ∃ q q', p.addOperations shard ops = (.ok (), q) ∧
      q' = { q.setWorker shard { q.worker shard with
          startTime := some now
          answeredAt := none
          dispatchedAt := none
          timeout := workerTimeout
          currentDispatch := some (q.lastDispatchId + 1) } with
        lastDispatchId := q.lastDispatchId + 1 } ∧
      q.lastDispatchId = p.lastDispatchId ∧ Given p shard ops q' := by
  have hrow := h.row shard
  have htoIgnore : (p.worker shard).operationsToIgnore = [] := by
    apply hrow.idle_toIgnore
    rw [hinactive]
    rfl
  have hadd : p.addOperations shard ops = (.ok (), _) :=
    if_neg (not_not.2 hinactive)
  refine ⟨_, _, hadd, rfl, rfl, rfl, rfl, ?_, ?_, ?_, ?_⟩
  · intro s hs
    simp [WorkerPool.setWorker, hs]
  · constructor <;> simp [WorkerPool.setWorker, Assignment.isBusy, hrow.ignore, hrow.scheduleDisabling]
  · simp [Worker.slot, WorkerPool.setWorker, htoIgnore]
  · intro op
    simp [WorkerPool.setWorker, foldl_add_apply]

theorem Sound.acquireWorker {p : WorkerPool Op} (h : p.Sound) (ops : List Op) (pick : Nat)
    (now : Int) :
    ∃ answer q, p.acquireWorker ops pick now = (.ok answer, q) ∧ q.Sound ∧ q.shards = p.shards ∧
      ((answer = none ∧ q.roster = p.roster) ∨
        ∃ shard, answer = some (shard, p.roster.last + 1) ∧ shard ∈ p.shards ∧
          (p.worker shard).connected = true ∧ p.roster.slot shard = none ∧
          q.roster = p.roster.assign shard ops) := by
  cases hpick : (p.findWorkers .inactive true)[pick % (p.findWorkers .inactive true).length]? with
  | none =>
      refine ⟨none, { p with workersAvailable := false }, ?_, ⟨h.row, h.outside, h.roster⟩, rfl,
        .inl ⟨rfl, rfl⟩⟩
      simp only [WorkerPool.acquireWorker, hpick]
  | some shard =>
      have hfound : shard ∈ p.findWorkers .inactive true := List.mem_of_getElem? hpick
      have hmem : shard ∈ p.shards := (List.mem_filter.1 hfound).1
      have hcond := (List.mem_filter.1 hfound).2
      simp only [Bool.and_eq_true, decide_eq_true_eq, Bool.not_true, Bool.false_or] at hcond
      obtain ⟨hinactive, hconnected⟩ := hcond
      have hidle : (p.worker shard).operations.isBusy = false := by
        rw [hinactive]
        rfl
      obtain ⟨q, q', hadd, hq', hlast, hgiven⟩ := h.acquire_given hinactive ops now
      refine ⟨some (shard, p.roster.last + 1), q', ?_, hgiven.sound h hidle hmem, hgiven.shards,
        .inr ⟨shard, rfl, hmem, hconnected, Worker.slot_of_idle hidle, hgiven.refines⟩⟩
      simp only [WorkerPool.acquireWorker, hpick, hadd, hq', hlast]
      rfl

/-- An answer is stale, and changes nothing, or it frees the shard. -/
theorem Sound.releaseWorker {p : WorkerPool Op} (h : p.Sound) (shard : Nat)
    (dispatchId : Option Nat) :
    ((p.releaseWorker shard dispatchId).2 = p ∧
        ((p.releaseWorker shard dispatchId).1 = .ok (.verdict true) ∨
          ∃ e, (p.releaseWorker shard dispatchId).1 = .error e) ∧
        ∀ sl, p.roster.slot shard = some sl → dispatchId ≠ none ∧ dispatchId ≠ some sl.dispatch) ∨
      ∃ sl, p.roster.slot shard = some sl ∧ (dispatchId = none ∨ dispatchId = some sl.dispatch) ∧
        (p.releaseWorker shard dispatchId).1 = .ok sl.release ∧
        TakesBack p [shard] sl.operations (p.releaseWorker shard dispatchId).2 := by
  cases hslot : p.roster.slot shard with
  | some sl =>
      obtain ⟨hops, hcurrent, htoIgnore⟩ := Worker.slot_eq_some.1 hslot
      by_cases hdispatch : dispatchId = none ∨ dispatchId = some sl.dispatch
      · right
        rw [← hcurrent] at hdispatch
        obtain ⟨q, hq, hback⟩ := h.release_plain hops hdispatch
        refine ⟨sl, rfl, hcurrent ▸ hdispatch, ?_, ?_⟩
        · rw [hq, Worker.release, (h.row shard).ignore, htoIgnore]
          simp [Slot.release]
        · rw [hq]
          exact hback
      · left
        have hmem : shard ∈ p.shards := by
          apply h.mem_shards
          rw [hops]
          rfl
        have hstale : dispatchId ≠ none ∧ dispatchId ≠ (p.worker shard).currentDispatch := by
          rw [hcurrent]
          tauto
        refine ⟨?_, ?_, ?_⟩
        · simp only [WorkerPool.releaseWorker, if_pos hmem, if_pos hstale]
        · simp only [WorkerPool.releaseWorker, if_pos hmem, if_pos hstale, true_or]
        · rintro sl' hsl'
          rw [← Option.some.inj hsl']
          tauto
  | none =>
      left
      have hquiet : (p.releaseWorker shard dispatchId).2 = p ∧
          ((p.releaseWorker shard dispatchId).1 = .ok (.verdict true) ∨
            ∃ e, (p.releaseWorker shard dispatchId).1 = .error e) := by
        unfold WorkerPool.releaseWorker
        by_cases hstale : dispatchId ≠ none ∧ dispatchId ≠
            if shard ∈ p.shards then (p.worker shard).currentDispatch else none
        · simp only [if_pos hstale, true_or, and_self]
        · by_cases hmem : shard ∈ p.shards
          · simp only [if_neg hstale, if_neg (not_not.2 hmem)]
            cases hops : (p.worker shard).operations with
            | inactive => simp
            | disabled => simp
            | busy ops =>
                obtain ⟨d, -, hsome⟩ := (h.row shard).slot_of_busy hops
                rw [show (p.worker shard).slot = none from hslot] at hsome
                cases hsome
          · simp only [if_neg hstale, if_pos hmem]
            exact ⟨trivial, .inr ⟨_, rfl⟩⟩
      exact ⟨hquiet.1, hquiet.2, by simp⟩

omit [DecidableEq Op] in
theorem Sound.ignoreOperation {p : WorkerPool Op} (h : p.Sound) (op : Op) :
    (p.ignoreOperation op).2.Sound ∧ (p.ignoreOperation op).2.shards = p.shards ∧
      (p.ignoreOperation op).2.roster =
        match p.roster.holder op with
        | none => p.roster
        | some shard => p.roster.ignore op shard := by
  cases hholder : p.roster.holder op with
  | none =>
      have hreverse : p.operationsReverse op = none := hholder
      simp only [WorkerPool.ignoreOperation, hreverse]
      exact ⟨h, trivial, trivial⟩
  | some shard =>
      have hreverse : p.operationsReverse op = some shard := hholder
      obtain ⟨sl, hslot, -⟩ := h.roster.holder_holds op shard hholder
      obtain ⟨hops, hcurrent, htoIgnore⟩ := Worker.slot_eq_some.1 hslot
      have hrow := h.row shard
      simp only [WorkerPool.ignoreOperation, hreverse]
      have hrefines : (p.setWorker shard { p.worker shard with
          operationsToIgnore := (p.worker shard).operationsToIgnore ++ [op] }).roster =
          p.roster.ignore op shard := by
        rw [roster_setWorker, Roster.ignore, hslot]
        simp [Worker.slot, hops, hcurrent, htoIgnore]
      refine ⟨⟨?_, ?_, ?_⟩, rfl, hrefines⟩
      · intro s
        by_cases hs : s = shard
        · subst hs
          simp only [WorkerPool.setWorker, Function.update_self]
          refine ⟨hrow.busy_start, hrow.busy_dispatch, hrow.ignore, hrow.scheduleDisabling, ?_⟩
          intro hidle
          simp [hops, Assignment.isBusy] at hidle
        · simpa [WorkerPool.setWorker, hs] using h.row s
      · intro s hs
        by_cases hshard : s = shard
        · subst hshard
          simpa [WorkerPool.setWorker] using h.outside s hs
        · simpa [WorkerPool.setWorker, hshard] using h.outside s hs
      · rw [hrefines]
        exact h.roster.ignore op shard

end WorkerPool

end Service
end ContestManagement
