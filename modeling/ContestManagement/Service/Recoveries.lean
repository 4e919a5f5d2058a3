import ContestManagement.Service.WorkerPoolRuns

/-!
# What the recoveries return

Three calls take job groups back from workers: `check_timeouts`, `disable_worker` and
`check_connections`.  What they return is put in the queue again, so an operation that was marked to
be ignored has to stay out of it.  The first two see to that.
-/

namespace ContestManagement
namespace Service

/-- Two ways to give lists for the members of a list, the second one leaving values out, agree
where none is left out. -/
theorem flatMap_eq_flatMap_iff {α β : Type*} {values : List α} {all kept : α → List β}
    (h : ∀ x ∈ values, (kept x).Sublist (all x)) :
    values.flatMap all = values.flatMap kept ↔ ∀ x ∈ values, kept x = all x := by
  induction values with
  | nil => simp
  | cons x rest ih =>
      rw [List.forall_mem_cons] at h
      rw [List.flatMap_cons, List.flatMap_cons, List.forall_mem_cons, ← ih h.2]
      constructor
      · intro heq
        have hlength := congrArg List.length heq
        have hfirst := h.1.length_le
        have hrest := (List.Sublist.flatMap_right rest h.2).length_le
        rw [List.length_append, List.length_append] at hlength
        have hsame : kept x = all x := h.1.eq_of_length (by omega)
        rw [hsame] at heq
        exact ⟨hsame, List.append_cancel_left heq⟩
      · rintro ⟨hsame, heq⟩
        rw [hsame, heq]

variable {Op : Type}

/-! ## The operations of a worker -/

/-- The operations that the worker was given. -/
def Worker.assigned (w : Worker Op) : List Op :=
  match w.operations with
  | .busy ops => ops
  | _ => []

/-- The time of the job group is over. -/
def Worker.overdue (w : Worker Op) (now : Int) : Bool :=
  match w.startTime with
  | some start => w.expired start now
  | none => false

/-- The worker is busy and cannot be reached. -/
def Worker.cutOff (w : Worker Op) : Bool := w.operations.isBusy && !w.connected

theorem Worker.assigned_of_busy {w : Worker Op} {ops : List Op} (h : w.operations = .busy ops) :
    w.assigned = ops := by
  rw [Worker.assigned, h]

variable [DecidableEq Op]

/-- The operations that the worker was given and that are still wanted of it. -/
def Worker.wanted (w : Worker Op) : List Op :=
  w.assigned.filter fun op => op ∉ w.operationsToIgnore

theorem Worker.wanted_sublist (w : Worker Op) : w.wanted.Sublist w.assigned :=
  List.filter_sublist

theorem Worker.wanted_eq_assigned_iff {w : Worker Op} :
    w.wanted = w.assigned ↔ ∀ op ∈ w.assigned, op ∉ w.operationsToIgnore := by
  rw [Worker.wanted, List.filter_eq_self]
  simp

namespace WorkerPool

/-! ## Which workers are released -/

/-- The workers that were busy and are not any more. -/
def released (p q : WorkerPool Op) : List Nat :=
  p.shards.filter fun shard =>
    (p.worker shard).operations.isBusy && !(q.worker shard).operations.isBusy

/-- The workers that a call releases; it writes no other row. -/
structure Releases (p : WorkerPool Op) (freed : List Nat) (q : WorkerPool Op) : Prop where
  busy : ∀ shard ∈ freed, (p.worker shard).operations.isBusy = true
  idle : ∀ shard ∈ freed, (q.worker shard).operations.isBusy = false
  others : ∀ shard, shard ∉ freed → q.worker shard = p.worker shard

omit [DecidableEq Op] in
theorem Releases.nil (p : WorkerPool Op) : Releases p [] p where
  busy := by simp
  idle := by simp
  others := fun _ _ => rfl

theorem Freed.releases {p q : WorkerPool Op} {shard : Nat} {ops : List Op}
    (hops : (p.worker shard).operations = .busy ops) (h : Freed p shard ops q) :
    Releases p [shard] q where
  busy := by
    intro s hs
    rw [List.mem_singleton.1 hs, hops]
    rfl
  idle := by
    intro s hs
    rw [List.mem_singleton.1 hs]
    exact h.idle
  others := fun s hs => h.others s (by simpa using hs)

omit [DecidableEq Op] in
theorem Releases.cons {p q r : WorkerPool Op} {shard : Nat} {rest : List Nat}
    (h : Releases p [shard] q) (hrest : Releases q rest r) (hmem : shard ∉ rest) :
    Releases p (shard :: rest) r where
  busy := by
    intro s hs
    rcases List.mem_cons.1 hs with rfl | hs
    · exact h.busy s (List.mem_singleton_self s)
    · have hne : s ∉ [shard] := by
        rw [List.mem_singleton]
        intro heq
        exact hmem (heq ▸ hs)
      rw [← h.others s hne]
      exact hrest.busy s hs
  idle := by
    intro s hs
    rcases List.mem_cons.1 hs with rfl | hs
    · rw [hrest.others s hmem]
      exact h.idle s (List.mem_singleton_self s)
    · exact hrest.idle s hs
  others := by
    intro s hs
    rw [List.mem_cons, not_or] at hs
    rw [hrest.others s hs.2, h.others s (by simpa using hs.1)]

omit [DecidableEq Op] in
theorem Releases.released_eq {p q : WorkerPool Op} {due : Nat → Bool}
    (h : Releases p (p.shards.filter due) q) : p.released q = p.shards.filter due := by
  apply List.filter_congr
  intro shard hshard
  cases hdue : due shard with
  | true =>
      have hmem : shard ∈ p.shards.filter due := List.mem_filter.2 ⟨hshard, hdue⟩
      rw [h.busy shard hmem, h.idle shard hmem]
      rfl
  | false =>
      have hmem : shard ∉ p.shards.filter due := by
        rw [List.mem_filter, hdue]
        simp
      rw [h.others shard hmem, Bool.and_not_self]

/-! ## The loops -/

/-- What a loop over the shards comes to: it releases the workers that are due, and adds to what is
lost the operations that it is to give back for each of them. -/
def Recovers (due : Worker Op → Bool) (give : Worker Op → List Op) (shards : List Nat)
    (lost : List Op) (p : WorkerPool Op) (outcome : Except PoolError (List Op) × WorkerPool Op) :
    Prop :=
  ∃ q, outcome = (.ok (lost ++ (shards.filter fun s => due (p.worker s)).flatMap fun s =>
      give (p.worker s)), q) ∧
    Releases p (shards.filter fun s => due (p.worker s)) q

section Loops

variable {due : Worker Op → Bool} {give : Worker Op → List Op} {shard : Nat} {rest : List Nat}
  {lost : List Op} {p mid : WorkerPool Op} {outcome : Except PoolError (List Op) × WorkerPool Op}

omit [DecidableEq Op] in
theorem Recovers.nil : Recovers due give [] lost p (.ok lost, p) :=
  ⟨p, by simp, Releases.nil p⟩

omit [DecidableEq Op] in
theorem Recovers.skip (hdue : due (p.worker shard) = false)
    (h : Recovers due give rest lost p outcome) : Recovers due give (shard :: rest) lost p outcome := by
  unfold Recovers
  rw [List.filter_cons_of_neg (by simp [hdue])]
  exact h

/-- The loop goes on with a pool in which only the row of the released worker is another one. -/
theorem Recovers.release {ops : List Op} (hdue : due (p.worker shard) = true)
    (hops : (p.worker shard).operations = .busy ops) (hfreed : Freed p shard ops mid)
    (hmem : shard ∉ rest) (h : Recovers due give rest (lost ++ give (p.worker shard)) mid outcome) :
    Recovers due give (shard :: rest) lost p outcome := by
  have hothers : ∀ s ∈ rest, mid.worker s = p.worker s := by
    intro s hs
    apply hfreed.others
    rintro rfl
    exact hmem hs
  have hfilter : (rest.filter fun s => due (mid.worker s)) =
      rest.filter fun s => due (p.worker s) := by
    apply List.filter_congr
    intro s hs
    rw [hothers s hs]
  have hgiven : ((rest.filter fun s => due (p.worker s)).flatMap fun s => give (mid.worker s)) =
      (rest.filter fun s => due (p.worker s)).flatMap fun s => give (p.worker s) := by
    apply List.flatMap_congr
    intro s hs
    rw [hothers s (List.mem_of_mem_filter hs)]
  obtain ⟨q, hq, hreleases⟩ := h
  rw [hfilter] at hq hreleases
  rw [hgiven] at hq
  have hcons : ((shard :: rest).filter fun s => due (p.worker s)) =
      shard :: rest.filter fun s => due (p.worker s) :=
    List.filter_cons_of_pos hdue
  unfold Recovers
  rw [hcons]
  refine ⟨q, ?_, ?_⟩
  · rw [List.flatMap_cons, hq, List.append_assoc]
  · apply (hfreed.releases hops).cons hreleases
    intro hs
    exact hmem (List.mem_of_mem_filter hs)

end Loops

theorem Sound.freed {p q : WorkerPool Op} (h : p.Sound) {shard : Nat} {ops : List Op}
    (hops : (p.worker shard).operations = .busy ops) (hfreed : Freed p shard ops q) : q.Sound :=
  hfreed.sound hops (fun s _ => h.row s) h.outside h.roster

/-- `check_timeouts` releases the workers whose time is over. -/
theorem checkTimeoutsLoop_recovers (now : Int) {shards : List Nat} (hnodup : shards.Nodup)
    (lost : List Op) {p : WorkerPool Op} (h : p.Sound) :
    Recovers (fun w => w.overdue now) Worker.wanted shards lost p
      (checkTimeoutsLoop now shards lost p) := by
  induction shards generalizing lost p with
  | nil => exact Recovers.nil
  | cons shard rest ih =>
      obtain ⟨hmem, hrest⟩ := List.nodup_cons.1 hnodup
      cases hstart : (p.worker shard).startTime with
      | none =>
          have hloop : checkTimeoutsLoop now (shard :: rest) lost p =
              checkTimeoutsLoop now rest lost p := by
            simp [checkTimeoutsLoop, hstart]
          rw [hloop]
          exact (ih hrest lost h).skip (by simp [Worker.overdue, hstart])
      | some start =>
          cases hexpired : (p.worker shard).expired start now with
          | false =>
              have hloop : checkTimeoutsLoop now (shard :: rest) lost p =
                  checkTimeoutsLoop now rest lost p := by
                simp [checkTimeoutsLoop, hstart, hexpired]
              rw [hloop]
              exact (ih hrest lost h).skip (by simp [Worker.overdue, hstart, hexpired])
          | true =>
              obtain ⟨ops, hops⟩ := (h.row shard).busy_of_startTime hstart
              obtain ⟨mid, hmid, hfreed⟩ :=
                h.release_freed hops ((p.worker shard).timedOut now) hops
              have hloop : checkTimeoutsLoop now (shard :: rest) lost p =
                  checkTimeoutsLoop now rest (lost ++ (p.worker shard).wanted) mid := by
                simp only [checkTimeoutsLoop, hstart, hexpired, Bool.not_true, hops,
                  (h.row shard).ignore, Bool.false_eq_true, if_false, hmid, Worker.wanted,
                  Worker.assigned]
              rw [hloop]
              apply Recovers.release _ hops hfreed hmem (ih hrest _ (h.freed hops hfreed))
              simp [Worker.overdue, hstart, hexpired]

/-- `check_connections` releases the busy workers that cannot be reached, and returns all of their
operations. -/
theorem checkConnectionsLoop_recovers {shards : List Nat} (hnodup : shards.Nodup)
    (lost : List Op) {p : WorkerPool Op} (h : p.Sound) :
    Recovers Worker.cutOff Worker.assigned shards lost p (checkConnectionsLoop shards lost p) := by
  induction shards generalizing lost p with
  | nil => exact Recovers.nil
  | cons shard rest ih =>
      obtain ⟨hmem, hrest⟩ := List.nodup_cons.1 hnodup
      cases hbusy : (p.worker shard).operations.isBusy with
      | false =>
          have hloop : checkConnectionsLoop (shard :: rest) lost p =
              checkConnectionsLoop rest lost p := by
            cases hops : (p.worker shard).operations with
            | inactive => simp [checkConnectionsLoop, hops]
            | disabled => simp [checkConnectionsLoop, hops]
            | busy ops => simp [hops, Assignment.isBusy] at hbusy
          rw [hloop]
          exact (ih hrest lost h).skip (by simp [Worker.cutOff, hbusy])
      | true =>
          obtain ⟨ops, hops⟩ := Assignment.isBusy_iff.1 hbusy
          cases hconnected : (p.worker shard).connected with
          | true =>
              have hloop : checkConnectionsLoop (shard :: rest) lost p =
                  checkConnectionsLoop rest lost p := by
                simp [checkConnectionsLoop, hops, hconnected]
              rw [hloop]
              exact (ih hrest lost h).skip (by simp [Worker.cutOff, hconnected])
          | false =>
              obtain ⟨mid, hmid, hfreed⟩ := releaseWorker_busy (h.mem_shards hbusy) hops (.inl rfl)
              have hloop : checkConnectionsLoop (shard :: rest) lost p =
                  checkConnectionsLoop rest (lost ++ (p.worker shard).assigned) mid := by
                simp [checkConnectionsLoop, hops, hconnected, (h.row shard).ignore, hmid,
                  Worker.assigned]
              rw [hloop]
              apply Recovers.release _ hops hfreed hmem (ih hrest _ (h.freed hops hfreed))
              simp [Worker.cutOff, hbusy, hconnected]

/-! ## Exact recoveries -/

omit [DecidableEq Op] in
/-- The call left the assignment, the ignore marks and the start time of the worker as they were. -/
structure Unchanged (p q : WorkerPool Op) (shard : Nat) : Prop where
  operations : (q.worker shard).operations = (p.worker shard).operations
  operationsToIgnore : (q.worker shard).operationsToIgnore = (p.worker shard).operationsToIgnore
  startTime : (q.worker shard).startTime = (p.worker shard).startTime

omit [DecidableEq Op] in
theorem unchanged_of_worker_eq {p q : WorkerPool Op} {shard : Nat}
    (h : q.worker shard = p.worker shard) : Unchanged p q shard := by
  constructor
  · rw [h]
  · rw [h]
  · rw [h]

/-- A recovery returns the operations that are still wanted of the workers it releases, those of
each worker once, and leaves the workers outside the list alone. -/
structure RecoversExactly (p : WorkerPool Op) (touched : List Nat)
    (outcome : Except PoolError (List Op) × WorkerPool Op) : Prop where
  lost : outcome.1 = .ok ((p.released outcome.2).flatMap fun shard => (p.worker shard).wanted)
  once : (p.released outcome.2).Nodup
  others : ∀ shard, shard ∉ touched → Unchanged p outcome.2 shard

/-- `check_timeouts` returns what is still wanted. -/
theorem checkTimeouts_recoversExactly {p : WorkerPool Op} (h : p.Sound) (hnodup : p.shards.Nodup)
    (now : Int) :
    RecoversExactly p (p.released (p.checkTimeouts now).2) (p.checkTimeouts now) := by
  obtain ⟨q, hq, hreleases⟩ := checkTimeoutsLoop_recovers now hnodup [] h
  have hreleased := hreleases.released_eq
  rw [checkTimeouts, hq]
  constructor
  · rw [hreleased, List.nil_append]
  · exact hnodup.filter _
  · intro shard hshard
    rw [hreleased] at hshard
    exact unchanged_of_worker_eq (hreleases.others shard hshard)

/-- `check_connections` does so where no worker that it releases has an operation to be
ignored. -/
theorem checkConnections_recoversExactly_iff {p : WorkerPool Op} (h : p.Sound)
    (hnodup : p.shards.Nodup) :
    RecoversExactly p (p.released p.checkConnections.2) p.checkConnections ↔
      ∀ shard ∈ p.shards, (p.worker shard).cutOff = true →
        ∀ op ∈ (p.worker shard).assigned, op ∉ (p.worker shard).operationsToIgnore := by
  obtain ⟨q, hq, hreleases⟩ := checkConnectionsLoop_recovers hnodup [] h
  have hreleased := hreleases.released_eq
  have hexact : RecoversExactly p (p.released q) p.checkConnections ↔
      ((p.shards.filter fun s => (p.worker s).cutOff).flatMap fun s => (p.worker s).assigned) =
        (p.shards.filter fun s => (p.worker s).cutOff).flatMap fun s => (p.worker s).wanted := by
    rw [checkConnections, hq]
    constructor
    · intro hrecovers
      have hlost := hrecovers.lost
      rw [hreleased, List.nil_append] at hlost
      exact Except.ok.inj hlost
    · intro heq
      constructor
      · rw [hreleased, List.nil_append, heq]
      · exact hnodup.filter _
      · intro shard hshard
        rw [hreleased] at hshard
        exact unchanged_of_worker_eq (hreleases.others shard hshard)
  have hpool : p.checkConnections.2 = q := by
    rw [checkConnections, hq]
  rw [hpool, hexact, flatMap_eq_flatMap_iff fun s _ => (p.worker s).wanted_sublist]
  simp only [List.mem_filter, and_imp, Worker.wanted_eq_assigned_iff]

/-- Disabling a busy worker. -/
theorem disableWorker_busy {p : WorkerPool Op} (h : p.Sound) {shard : Nat} {ops : List Op}
    (hops : (p.worker shard).operations = .busy ops) :
    ∃ q, p.disableWorker shard = (.ok (p.worker shard).wanted, q) ∧ Freed p shard ops q := by
  have hmem := h.mem_shards (Assignment.isBusy_iff.2 ⟨ops, hops⟩)
  have hrow := h.row shard
  have hwanted : (p.worker shard).wanted =
      ops.filter fun op => op ∉ (p.worker shard).operationsToIgnore := by
    rw [Worker.wanted, Worker.assigned_of_busy hops]
  have hsound : (p.setWorker shard { p.worker shard with
      disabledByTimeout := false
      disabledAt := none }).Sound :=
    h.setWorker ⟨hrow.busy_start, hrow.busy_dispatch, hrow.ignore, hrow.scheduleDisabling,
      hrow.idle_toIgnore⟩ rfl rfl
  have hworker : (p.setWorker shard { p.worker shard with
      disabledByTimeout := false
      disabledAt := none }).worker shard = { p.worker shard with
        disabledByTimeout := false
        disabledAt := none } :=
    Function.update_self ..
  have hback : ∀ q, Freed (p.setWorker shard { p.worker shard with
      disabledByTimeout := false
      disabledAt := none }) shard ops q → Freed p shard ops q :=
    fun q hfreed => hfreed.of_setWorker
  simp only [disableWorker, if_neg (not_not.2 hmem), hwanted]
  -- From here on only these facts about the pool with the two fields cleared are needed.
  generalize p.setWorker shard { p.worker shard with
    disabledByTimeout := false
    disabledAt := none } = cleared at hsound hworker hback
  have hopsCleared : (cleared.worker shard).operations = .busy ops := by
    rw [hworker]
    exact hops
  have hignore : (cleared.worker shard).operationsToIgnore = (p.worker shard).operationsToIgnore := by
    rw [hworker]
  obtain ⟨q, hq, hfreed⟩ := hsound.release_freed hopsCleared
    (cleared.worker shard).scheduledForDisabling hopsCleared
  refine ⟨q, ?_, hback q hfreed⟩
  simp only [hopsCleared, hq, (hsound.row shard).ignore, Bool.false_eq_true, if_false, hignore]

theorem Freed.released_eq {p q : WorkerPool Op} {shard : Nat} {ops : List Op}
    (hfreed : Freed p shard ops q) (hops : (p.worker shard).operations = .busy ops)
    (hnodup : p.shards.Nodup) (hmem : shard ∈ p.shards) : p.released q = [shard] := by
  have hfilter : p.shards.filter (fun s => decide (s = shard)) = [shard] := by
    rw [List.filter_eq, List.count_eq_one_of_mem hnodup hmem]
    rfl
  have hreleases : Releases p (p.shards.filter fun s => decide (s = shard)) q := by
    rw [hfilter]
    exact hfreed.releases hops
  rw [hreleases.released_eq, hfilter]

/-- `disable_worker` touches the row of its own worker only. -/
theorem disableWorker_others {p : WorkerPool Op} (h : p.Sound) (shard : Nat) {other : Nat}
    (hne : other ≠ shard) : (p.disableWorker shard).2.worker other = p.worker other := by
  by_cases hmem : shard ∈ p.shards
  · cases hops : (p.worker shard).operations with
    | busy ops =>
        obtain ⟨q, hq, hfreed⟩ := disableWorker_busy h hops
        rw [hq]
        exact hfreed.others other hne
    | inactive => simp [disableWorker, hmem, hops, setWorker, hne]
    | disabled => simp [disableWorker, hmem, hops, setWorker, hne]
  · simp [disableWorker, hmem]

/-- `disable_worker` returns what is still wanted. -/
theorem disableWorker_recoversExactly {p : WorkerPool Op} (h : p.Sound) (hnodup : p.shards.Nodup)
    {shard : Nat} {lost : List Op} (hok : (p.disableWorker shard).1 = .ok lost) :
    RecoversExactly p [shard] (p.disableWorker shard) := by
  have hothers : ∀ other, other ∉ [shard] → Unchanged p (p.disableWorker shard).2 other :=
    fun other hother =>
      unchanged_of_worker_eq (disableWorker_others h shard (by simpa using hother))
  cases hops : (p.worker shard).operations with
  | busy ops =>
      have hmem := h.mem_shards (Assignment.isBusy_iff.2 ⟨ops, hops⟩)
      obtain ⟨q, hq, hfreed⟩ := disableWorker_busy h hops
      have hreleased := hfreed.released_eq hops hnodup hmem
      rw [hq] at hothers ⊢
      constructor
      · rw [hreleased, List.flatMap_singleton]
      · rw [hreleased]
        exact List.nodup_singleton shard
      · exact hothers
  | inactive =>
      by_cases hmem : shard ∈ p.shards
      · have hidle : (p.worker shard).operations.isBusy = false := by
          rw [hops]
          rfl
        have hreleased : p.released (p.disableWorker shard).2 = [] := by
          rw [released, List.filter_eq_nil_iff]
          intro other _
          by_cases heq : other = shard
          · rw [heq, hidle]
            simp
          · rw [disableWorker_others h shard heq, Bool.and_not_self]
            simp
        constructor
        · rw [hreleased]
          simp [disableWorker, hmem, hops, setWorker]
        · rw [hreleased]
          exact List.nodup_nil
        · exact hothers
      · simp [disableWorker, hmem] at hok
  | disabled =>
      by_cases hmem : shard ∈ p.shards
      · simp [disableWorker, hmem, hops, setWorker] at hok
      · simp [disableWorker, hmem] at hok

/-- Where it raises, it has only cleared the note on the timeout. -/
theorem disableWorker_unchanged {p : WorkerPool Op} (h : p.Sound) {shard : Nat} {e : PoolError}
    (herror : (p.disableWorker shard).1 = .error e) (other : Nat) :
    Unchanged p (p.disableWorker shard).2 other := by
  by_cases hne : other = shard
  · subst hne
    by_cases hmem : other ∈ p.shards
    · cases hops : (p.worker other).operations with
      | busy ops =>
          obtain ⟨q, hq, -⟩ := disableWorker_busy h hops
          rw [hq] at herror
          cases herror
      | inactive => simp [disableWorker, hmem, hops, setWorker] at herror
      | disabled =>
          constructor
          · simp [disableWorker, hmem, hops, setWorker]
          · simp [disableWorker, hmem, hops, setWorker]
          · simp [disableWorker, hmem, hops, setWorker]
    · apply unchanged_of_worker_eq
      simp [disableWorker, hmem]
  · exact unchanged_of_worker_eq (disableWorker_others h shard hne)

end WorkerPool

/-! ## Recoveries in reachable states -/

namespace PoolState

/-- No call adds or drops a worker. -/
theorem shards_step {s t : PoolState Op} (h : s.Inv) {a : PoolAction Op} (hstep : s.step a = some t) :
    t.pool.shards = s.pool.shards := by
  cases a with
  | acquire ops pick now =>
      cases hstep
      obtain ⟨answer, q, hq, -, hshards, -⟩ := h.sound.acquireWorker ops pick now
      rw [hq]
      exact hshards
  | setTimeout shard d timeout now =>
      cases hstep
      exact (h.sound.setTimeout shard d timeout now).shards_eq
  | markAnswered shard d now =>
      cases hstep
      exact (h.sound.markAnswered shard d now).shards_eq
  | answer shard d =>
      cases hstep
      rcases h.sound.releaseWorker shard d with ⟨hpool, -⟩ | ⟨sl, -, -, -, hback⟩
      · show (s.pool.releaseWorker shard d).2.shards = _
        rw [hpool]
      · exact hback.shards_eq
  | ignoreOperation op =>
      cases hstep
      exact (h.sound.ignoreOperation op).2.1
  | checkTimeouts now =>
      cases hstep
      obtain ⟨freed, lost, q, hq, hback⟩ := WorkerPool.checkTimeouts_takesBack h.sound now
      rw [hq]
      exact hback.shards_eq
  | checkConnections =>
      cases hstep
      obtain ⟨freed, lost, q, hq, hback⟩ := WorkerPool.checkConnections_takesBack h.sound
      rw [hq]
      exact hback.shards_eq
  | disable shard =>
      cases hstep
      obtain ⟨freed, lost, hback, -⟩ := h.sound.disableWorker shard
      exact hback.shards_eq
  | enable shard =>
      cases hstep
      exact (h.sound.enableWorker shard).shards_eq
  | connected shard =>
      simp only [PoolState.step, Option.ite_none_right_eq_some, Option.some.injEq] at hstep
      rw [← hstep.2]
      exact (h.sound.onWorkerConnected shard).shards_eq
  | disconnected shard =>
      simp only [PoolState.step, Option.ite_none_right_eq_some, Option.some.injEq] at hstep
      rw [← hstep.2]
      exact (h.sound.onWorkerDisconnected shard).shards_eq

theorem shards_of_reachable {count : Nat} {s : PoolState Op}
    (h : (poolMachine Op count).Reachable s) : s.pool.shards = List.range count := by
  have hboth : s.Inv ∧ s.pool.shards = List.range count := by
    apply h.invariant (I := fun s => s.Inv ∧ s.pool.shards = List.range count)
    · rintro s rfl
      exact ⟨inv_start count, WorkerPool.shards_withWorkers count⟩
    · intro s a t hs hstep
      exact ⟨hs.1.step hstep, (shards_step hs.1 hstep).trans hs.2⟩
  exact hboth.2

end PoolState

/-- In every reachable state `check_timeouts` and `disable_worker` return exactly the operations
still wanted of the workers they release; `check_connections` does exactly when no busy worker that
is disconnected has one of its operations marked to be ignored. -/
theorem recoveries_exact_iff (count : Nat) (s : PoolState Op)
    (h : (poolMachine Op count).Reachable s) :
    (∀ now, WorkerPool.RecoversExactly s.pool (s.pool.released (s.pool.checkTimeouts now).2)
      (s.pool.checkTimeouts now)) ∧
    (∀ shard,
      (∀ lost, (s.pool.disableWorker shard).1 = .ok lost →
        WorkerPool.RecoversExactly s.pool [shard] (s.pool.disableWorker shard)) ∧
      (∀ e, (s.pool.disableWorker shard).1 = .error e →
        ∀ other, WorkerPool.Unchanged s.pool (s.pool.disableWorker shard).2 other)) ∧
    (WorkerPool.RecoversExactly s.pool (s.pool.released s.pool.checkConnections.2)
        s.pool.checkConnections ↔
      ∀ shard ∈ s.pool.shards, (s.pool.worker shard).cutOff = true →
        ∀ op ∈ (s.pool.worker shard).assigned,
          op ∉ (s.pool.worker shard).operationsToIgnore) := by
  have hsound := (PoolState.inv_of_reachable h).sound
  have hnodup : s.pool.shards.Nodup := by
    rw [PoolState.shards_of_reachable h]
    exact List.nodup_range
  refine ⟨?_, ?_, ?_⟩
  · intro now
    exact WorkerPool.checkTimeouts_recoversExactly hsound hnodup now
  · intro shard
    constructor
    · intro lost hok
      exact WorkerPool.disableWorker_recoversExactly hsound hnodup hok
    · intro e herror other
      exact WorkerPool.disableWorker_unchanged hsound herror other
  · exact WorkerPool.checkConnections_recoversExactly_iff hsound hnodup

/-- Worker 0 is given operation 7, which is then to be ignored, and is disconnected. -/
def ignoredRun : List (PoolAction Nat) :=
  [.connected 0, .acquire [7] 0 0, .ignoreOperation 7, .disconnected 0]

def ignoredState : PoolState Nat :=
  ((poolMachine Nat 1).exec (PoolState.start Nat 1) ignoredRun).get (by decide)

theorem recoveries_exact_iff_ignored :
    WorkerPool.RecoversExactly ignoredState.pool
      (ignoredState.pool.released (ignoredState.pool.checkTimeouts 5000).2)
      (ignoredState.pool.checkTimeouts 5000) :=
  (recoveries_exact_iff 1 ignoredState
    (Lib.Machine.reachable_of_exec rfl (Option.some_get _).symm)).1 5000

/-- The disconnected worker's operation is lost, and so is queued again. -/
theorem ignored_operation_returned :
    (poolMachine Nat 1).Reachable ignoredState ∧
      (ignoredState.pool.worker 0).assigned = [7] ∧
      (ignoredState.pool.worker 0).operationsToIgnore = [7] ∧
      ignoredState.pool.checkConnections.1 = .ok [7] ∧
      ¬WorkerPool.RecoversExactly ignoredState.pool
        (ignoredState.pool.released ignoredState.pool.checkConnections.2)
        ignoredState.pool.checkConnections := by
  have hreturned : ignoredState.pool.checkConnections.1 = .ok [7] := by decide
  refine ⟨Lib.Machine.reachable_of_exec rfl (Option.some_get _).symm, by decide, by decide,
    hreturned, ?_⟩
  intro hexact
  have hlost := hexact.lost
  rw [hreturned] at hlost
  have hnone : ((ignoredState.pool.released ignoredState.pool.checkConnections.2).flatMap
      fun shard => (ignoredState.pool.worker shard).wanted) = [] := by
    decide
  rw [hnone] at hlost
  cases hlost

end Service
end ContestManagement
