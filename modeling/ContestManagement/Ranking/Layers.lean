import ContestManagement.Lib.Abstraction
import ContestManagement.Ranking.Integrity

/-!
# The operations of the stores with more than the state

What follows the callbacks of a store (an event for the viewers, a file that is written) changes no
store and no score.  A `Layer` says what is kept beside the state when an entity is set and when it is
deleted, and that the state is what it is without it.  The operations of a store are those of `State`
over any layer.
-/

namespace ContestManagement
namespace Ranking

open Lib

/-- States with something beside them. -/
structure Layer (W : Type) where
  state : W → State
  insert : W → (k : Kind) → String → Data k → Except Raised W
  /-- An entity is out of its store. -/
  without : W → (k : Kind) → String → W
  /-- The callbacks of a deletion, and what follows them. -/
  onDelete : W → (k : Kind) → String → Data k → Except Raised W
  state_insert : ∀ w k key e, (insert w k key e).map state = (state w).insert k key e
  state_without : ∀ w k key, state (without w k key) = (state w).without k key
  state_onDelete : ∀ w k key old,
    (onDelete w k key old).map state = (state w).onDelete k key old

namespace Layer

variable {W : Type} (L : Layer W)

def create (w : W) (k : Kind) (key : String) (data : PyValue) : Except Raised W :=
  if !validKey key then .error (.invalidKey "Invalid key.")
  else if (L.state w).stores.has k key then .error (.invalidKey "Key already in store.")
  else do
    let e ← State.refuseData ((L.state w).validated k data)
    L.insert w k key e

def update (w : W) (k : Kind) (key : String) (data : PyValue) : Except Raised W :=
  if !(L.state w).stores.has k key then .error (.invalidKey "Key not in store.")
  else do
    let e ← State.refuseData ((L.state w).validated k data)
    L.insert w k key e

def mergeList (w : W) (k : Kind) (data : PyValue) : Except Raised W := do
  let entities ← State.refuseData ((L.state w).entitiesOf k data)
  entities.items.foldlM (fun w item => L.insert w k item.1 item.2) w

/-- `delete`, with the number of stores it may still go down through. -/
def cascade : Nat → W → (k : Kind) → String → Except Raised W
  | depth, w, k, key =>
      match ((L.state w).stores k).get? key with
      | none => .error (.invalidKey "Key not in store.")
      | some old => do
          let w ← match depth with
            | 0 => .ok (L.without w k key)
            | depth + 1 =>
                k.depends.foldlM (fun w d =>
                  ((L.state w).stores d).items.foldlM (fun w item =>
                    if Data.consistent (L.state w).stores d item.2 then .ok w
                    else cascade depth w d item.1) w) (L.without w k key)
          L.onDelete w k key old

def delete (w : W) (k : Kind) (key : String) : Except Raised W :=
  L.cascade k.level w k key

def deleteList (w : W) (k : Kind) : Except Raised W :=
  ((L.state w).stores k).keys.foldlM (fun w key => L.delete w k key) w

def run (w : W) : Op → Except Raised W
  | .create k key data => L.create w k key data
  | .update k key data => L.update w k key data
  | .mergeList k data => L.mergeList w k data
  | .delete k key => L.delete w k key
  | .deleteList k => L.deleteList w k

/-- The state after an operation that succeeds or is refused. -/
def step (w : W) (op : Op) : Option W :=
  match L.run w op with
  | .ok w' => some w'
  | .error (.crashed _) => none
  | .error _ => some w

variable {L} {w w' : W} {k : Kind} {key : String} {data : PyValue}

/-! ## What the operations are made of -/

theorem create_ok (h : L.create w k key data = .ok w') :
    validKey key = true ∧
      ∃ e, (L.state w).validated k data = .ok e ∧ L.insert w k key e = .ok w' := by
  unfold create at h
  split at h
  case isTrue => cases h
  case isFalse hkey =>
    split at h
    case isTrue => cases h
    case isFalse =>
      obtain ⟨e, he, hinsert⟩ := bind_eq_ok_iff.1 h
      refine ⟨?_, e, State.refuseData_eq_ok_iff.1 he, hinsert⟩
      rwa [Bool.not_eq_true', Bool.not_eq_false] at hkey

theorem update_ok (h : L.update w k key data = .ok w') :
    (L.state w).stores.has k key = true ∧
      ∃ e, (L.state w).validated k data = .ok e ∧ L.insert w k key e = .ok w' := by
  unfold update at h
  split at h
  case isTrue => cases h
  case isFalse hhas =>
    obtain ⟨e, he, hinsert⟩ := bind_eq_ok_iff.1 h
    refine ⟨?_, e, State.refuseData_eq_ok_iff.1 he, hinsert⟩
    rwa [Bool.not_eq_true', Bool.not_eq_false] at hhas

theorem mergeList_ok (h : L.mergeList w k data = .ok w') :
    ∃ entities, (L.state w).entitiesOf k data = .ok entities ∧
      entities.items.foldlM (fun w item => L.insert w k item.1 item.2) w = .ok w' := by
  obtain ⟨entities, hentities, hinsert⟩ := bind_eq_ok_iff.1 h
  exact ⟨entities, State.refuseData_eq_ok_iff.1 hentities, hinsert⟩

/-- Go through the items of a dependent store, at most `depth` stores down. -/
def sweepStore (L : Layer W) (depth : Nat) (w : W) (d : Kind) : Except Raised W :=
  ((L.state w).stores d).items.foldlM (fun w item =>
    if Data.consistent (L.state w).stores d item.2 then .ok w else L.cascade depth w d item.1) w

/-- Go through the dependents of a store. -/
def sweep (L : Layer W) (depth : Nat) (w : W) (k : Kind) : Except Raised W :=
  match depth with
  | 0 => .ok w
  | depth + 1 => k.depends.foldlM (L.sweepStore depth) w

theorem cascade_eq (L : Layer W) (depth : Nat) (w : W) (k : Kind) (key : String) :
    L.cascade depth w k key =
      match ((L.state w).stores k).get? key with
      | none => .error (.invalidKey "Key not in store.")
      | some old => L.sweep depth (L.without w k key) k >>= fun w => L.onDelete w k key old := by
  cases depth with
  | zero =>
      rw [cascade]
      rfl
  | succ depth =>
      rw [cascade]
      rfl

theorem cascade_onDelete {depth : Nat} (h : L.cascade depth w k key = .ok w') :
    ∃ old mid, ((L.state w).stores k).get? key = some old ∧
      L.sweep depth (L.without w k key) k = .ok mid ∧ L.onDelete mid k key old = .ok w' := by
  rw [cascade_eq] at h
  cases hget : ((L.state w).stores k).get? key with
  | none => simp [hget] at h
  | some old =>
      simp only [hget, bind_eq_ok_iff] at h
      obtain ⟨mid, hmid, hdelete⟩ := h
      exact ⟨old, mid, rfl, hmid, hdelete⟩

/-- What each deletion further down keeps, the sweep of the stores keeps. -/
theorem sweep_induction {P : W → Prop} {depth : Nat} (h : L.sweep depth w k = .ok w') (hw : P w)
    (hstep : ∀ n v d (item : String × Data d) v', depth = n + 1 → d ∈ k.depends → P v →
      L.cascade n v d item.1 = .ok v' → P v') : P w' := by
  cases depth with
  | zero =>
      cases h
      exact hw
  | succ n =>
      refine foldlM_ok_induction (P := fun _ v => P v) h hw ?_
      intro done d v v' hinit hv hsweep
      have hd : d ∈ k.depends := hinit.subset (by simp)
      refine foldlM_ok_induction (P := fun _ v => P v) hsweep hv ?_
      intro _ item u u' _ hu hitem
      split at hitem
      case isTrue =>
        cases hitem
        exact hu
      case isFalse => exact hstep n u d item u' rfl hd hu hitem

/-! ## The state is what it is without the layer -/

variable (L)

/-- What a deletion one store further down does to the state, the sweep of the stores does. -/
theorem state_sweep_of {depth : Nat}
    (hcascade : ∀ (w : W) (k : Kind) (key : String),
      (L.cascade depth w k key).map L.state = State.cascade depth (L.state w) k key)
    (w : W) (k : Kind) :
    (L.sweep (depth + 1) w k).map L.state = State.sweep (depth + 1) (L.state w) k := by
  have hitem (d : Kind) (w : W) (item : String × Data d) :
      (if Data.consistent (L.state w).stores d item.2 then .ok w
        else L.cascade depth w d item.1 : Except Raised W).map L.state =
      if Data.consistent (L.state w).stores d item.2 then .ok (L.state w)
        else State.cascade depth (L.state w) d item.1 := by
    split
    case isTrue => rfl
    case isFalse => exact hcascade w d item.1
  have hstore (w : W) (d : Kind) :
      (L.sweepStore depth w d).map L.state = State.sweepStore depth (L.state w) d :=
    map_foldlM (hitem d) ((L.state w).stores d).items w
  exact map_foldlM hstore k.depends w

/-- By induction on how far down the deletion goes. -/
theorem state_cascade (depth : Nat) :
    ∀ (w : W) (k : Kind) (key : String),
      (L.cascade depth w k key).map L.state = State.cascade depth (L.state w) k key := by
  induction depth with
  | zero =>
      intro w k key
      rw [cascade_eq, State.cascade_eq, ← L.state_without]
      cases ((L.state w).stores k).get? key with
      | none => rfl
      | some old => exact L.state_onDelete (L.without w k key) k key old
  | succ depth ih =>
      intro w k key
      rw [cascade_eq, State.cascade_eq, ← L.state_without]
      cases ((L.state w).stores k).get? key with
      | none => rfl
      | some old =>
          have hsweep := L.state_sweep_of ih (L.without w k key) k
          show (L.sweep (depth + 1) (L.without w k key) k >>= _).map L.state =
            State.sweep (depth + 1) (L.state (L.without w k key)) k >>= _
          rw [← hsweep]
          exact map_bind fun mid => L.state_onDelete mid k key old

theorem state_sweep (depth : Nat) (w : W) (k : Kind) :
    (L.sweep depth w k).map L.state = State.sweep depth (L.state w) k := by
  cases depth with
  | zero => rfl
  | succ depth => exact L.state_sweep_of (L.state_cascade depth) w k

theorem state_create (w : W) (k : Kind) (key : String) (data : PyValue) :
    (L.create w k key data).map L.state = (L.state w).create k key data := by
  unfold create State.create
  split
  case isTrue => rfl
  case isFalse =>
    split
    case isTrue => rfl
    case isFalse =>
      cases State.refuseData ((L.state w).validated k data) with
      | error e => rfl
      | ok e => exact L.state_insert w k key e

theorem state_update (w : W) (k : Kind) (key : String) (data : PyValue) :
    (L.update w k key data).map L.state = (L.state w).update k key data := by
  unfold update State.update
  split
  case isTrue => rfl
  case isFalse =>
    cases State.refuseData ((L.state w).validated k data) with
    | error e => rfl
    | ok e => exact L.state_insert w k key e

theorem state_mergeList (w : W) (k : Kind) (data : PyValue) :
    (L.mergeList w k data).map L.state = (L.state w).mergeList k data := by
  unfold mergeList State.mergeList
  cases State.refuseData ((L.state w).entitiesOf k data) with
  | error e => rfl
  | ok entities => exact map_foldlM (fun w item => L.state_insert w k item.1 item.2) _ w

theorem state_delete (w : W) (k : Kind) (key : String) :
    (L.delete w k key).map L.state = (L.state w).delete k key :=
  L.state_cascade k.level w k key

theorem state_deleteList (w : W) (k : Kind) :
    (L.deleteList w k).map L.state = (L.state w).deleteList k :=
  map_foldlM (fun w key => L.state_delete w k key) ((L.state w).stores k).keys w

/-- The layer does not change what an operation does. -/
theorem state_run (w : W) (op : Op) : (L.run w op).map L.state = (L.state w).run op := by
  cases op with
  | create k key data => exact L.state_create w k key data
  | update k key data => exact L.state_update w k key data
  | mergeList k data => exact L.state_mergeList w k data
  | delete k key => exact L.state_delete w k key
  | deleteList k => exact L.state_deleteList w k

/-- An operation that can be done can be done with the layer. -/
theorem exists_step {r' : State} {op : Op} (h : (L.state w).step op = some r') :
    ∃ w', L.step w op = some w' ∧ L.state w' = r' := by
  have hrun := L.state_run w op
  unfold State.step at h
  unfold step
  cases hw : L.run w op with
  | ok w' =>
      rw [hw] at hrun
      rw [← hrun] at h
      exact ⟨w', rfl, Option.some.inj h⟩
  | error raised =>
      rw [hw] at hrun
      rw [← hrun] at h
      cases raised with
      | crashed e => cases h
      | invalidKey message => exact ⟨w, rfl, Option.some.inj h⟩
      | invalidData message => exact ⟨w, rfl, Option.some.inj h⟩

end Layer

end Ranking
end ContestManagement
