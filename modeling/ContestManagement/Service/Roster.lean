import ContestManagement.Service.WorkerPool

/-!
# What the pool is for: a roster of dispatches

The eight dictionaries of the pool serve one purpose: to know which shard is
working on which job group.  A `Roster` says just that.  Its three operations
(assign a job group, mark an operation as ignored, free some shards) are what
the methods of the pool come down to, and `WorkerPool.roster` reads the roster
off the dictionaries.
-/

namespace ContestManagement
namespace Service

/-- A job group at a worker. -/
@[ext] structure Slot (Op : Type) where
  dispatch : Nat
  operations : List Op
  toIgnore : List Op
  deriving DecidableEq, Repr

/-- The job group of each shard, the shard that the reverse map names for each
operation, and the last dispatch id given out. -/
@[ext] structure Roster (Op : Type) where
  slot : Nat → Option (Slot Op)
  holder : Op → Option Nat
  last : Nat

namespace Roster

variable {Op : Type}

/-- No shard is working. -/
def idle (Op : Type) : Roster Op where
  slot := fun _ => none
  holder := fun _ => none
  last := 0

/-- The shards of the list lose their job groups. -/
def free (r : Roster Op) (shards : List Nat) : Roster Op where
  slot := fun s => if s ∈ shards then none else r.slot s
  holder := fun op => (r.holder op).filter fun s => s ∉ shards
  last := r.last

/-- A shard is marked to ignore an operation when it answers. -/
def ignore (r : Roster Op) (op : Op) (shard : Nat) : Roster Op :=
  { r with
    slot := Function.update r.slot shard
      ((r.slot shard).map fun sl => { sl with toIgnore := sl.toIgnore ++ [op] }) }

/-- A shard is given a job group under the next dispatch id. -/
def assign [DecidableEq Op] (r : Roster Op) (shard : Nat) (operations : List Op) : Roster Op where
  slot := Function.update r.slot shard (some ⟨r.last + 1, operations, []⟩)
  holder := fun op => if op ∈ operations then some shard else r.holder op
  last := r.last + 1

/-- The invariant of the roster. -/
structure Consistent (r : Roster Op) : Prop where
  /-- The reverse map names a shard that holds the operation. -/
  holder_holds : ∀ op shard, r.holder op = some shard →
    ∃ sl, r.slot shard = some sl ∧ op ∈ sl.operations
  dispatch_le : ∀ shard sl, r.slot shard = some sl → sl.dispatch ≤ r.last
  dispatch_injective : ∀ shard shard' sl sl', r.slot shard = some sl → r.slot shard' = some sl' →
    sl.dispatch = sl'.dispatch → shard = shard'

@[simp] theorem free_nil (r : Roster Op) : r.free [] = r := by
  ext <;> simp [free]

theorem free_free (r : Roster Op) (first second : List Nat) :
    (r.free first).free second = r.free (first ++ second) := by
  ext s
  · by_cases hfirst : s ∈ first <;> simp [free, hfirst]
  · cases hholder : r.holder s with
    | none => simp [free, hholder]
    | some shard =>
        by_cases hfirst : shard ∈ first
        · simp [free, hholder]
        · simp [free, hholder]
  · simp [free]

theorem slot_free_eq_some {r : Roster Op} {shards : List Nat} {shard : Nat} {sl : Slot Op} :
    (r.free shards).slot shard = some sl ↔ shard ∉ shards ∧ r.slot shard = some sl := by
  by_cases hmem : shard ∈ shards <;> simp [free, hmem]

theorem holder_free_eq_some {r : Roster Op} {shards : List Nat} {shard : Nat} {op : Op} :
    (r.free shards).holder op = some shard ↔ shard ∉ shards ∧ r.holder op = some shard := by
  simp [free, Option.filter_eq_some_iff, and_comm]

theorem consistent_idle : (idle Op).Consistent where
  holder_holds := by simp [idle]
  dispatch_le := by simp [idle]
  dispatch_injective := by simp [idle]

theorem Consistent.free {r : Roster Op} (h : r.Consistent) (shards : List Nat) :
    (r.free shards).Consistent where
  holder_holds := by
    intro op shard hholder
    rw [holder_free_eq_some] at hholder
    obtain ⟨sl, hslot, hop⟩ := h.holder_holds op shard hholder.2
    exact ⟨sl, slot_free_eq_some.2 ⟨hholder.1, hslot⟩, hop⟩
  dispatch_le := by
    intro shard sl hslot
    exact h.dispatch_le shard sl (slot_free_eq_some.1 hslot).2
  dispatch_injective := by
    intro shard shard' sl sl' hslot hslot' heq
    exact h.dispatch_injective shard shard' sl sl' (slot_free_eq_some.1 hslot).2
      (slot_free_eq_some.1 hslot').2 heq

/-- A slot after `ignore` is a slot before it, up to its ignore marks. -/
theorem slot_of_ignore {r : Roster Op} {op : Op} {shard s : Nat} {sl : Slot Op}
    (h : (r.ignore op shard).slot s = some sl) :
    ∃ old, r.slot s = some old ∧ old.dispatch = sl.dispatch ∧ old.operations = sl.operations := by
  by_cases hs : s = shard
  · subst hs
    simp only [ignore, Function.update_self, Option.map_eq_some_iff] at h
    obtain ⟨old, hold, rfl⟩ := h
    exact ⟨old, hold, rfl, rfl⟩
  · simp only [ignore, Function.update_of_ne hs] at h
    exact ⟨sl, h, rfl, rfl⟩

theorem slot_ignore_of_slot {r : Roster Op} {s : Nat} {sl : Slot Op}
    (h : r.slot s = some sl) (op : Op) (shard : Nat) :
    ∃ new, (r.ignore op shard).slot s = some new ∧ new.dispatch = sl.dispatch ∧
      new.operations = sl.operations := by
  by_cases hs : s = shard
  · subst hs
    exact ⟨{ sl with toIgnore := sl.toIgnore ++ [op] }, by simp [ignore, h], rfl, rfl⟩
  · exact ⟨sl, by simp [ignore, Function.update_of_ne hs, h], rfl, rfl⟩

theorem Consistent.ignore {r : Roster Op} (h : r.Consistent) (op : Op) (shard : Nat) :
    (r.ignore op shard).Consistent where
  holder_holds := by
    intro op' s hholder
    obtain ⟨sl, hslot, hop⟩ := h.holder_holds op' s hholder
    obtain ⟨new, hnew, -, hops⟩ := slot_ignore_of_slot hslot op shard
    exact ⟨new, hnew, hops ▸ hop⟩
  dispatch_le := by
    intro s sl hslot
    obtain ⟨old, hold, hdispatch, -⟩ := slot_of_ignore hslot
    exact hdispatch ▸ h.dispatch_le s old hold
  dispatch_injective := by
    intro s s' sl sl' hslot hslot' heq
    obtain ⟨old, hold, hdispatch, -⟩ := slot_of_ignore hslot
    obtain ⟨old', hold', hdispatch', -⟩ := slot_of_ignore hslot'
    exact h.dispatch_injective s s' old old' hold hold' (by rw [hdispatch, hdispatch', heq])

variable [DecidableEq Op]

theorem slot_assign {r : Roster Op} {shard s : Nat} {ops : List Op} {sl : Slot Op}
    (h : (r.assign shard ops).slot s = some sl) :
    (s = shard ∧ sl = ⟨r.last + 1, ops, []⟩) ∨ (s ≠ shard ∧ r.slot s = some sl) := by
  by_cases hs : s = shard
  · subst hs
    simp only [assign, Function.update_self, Option.some.injEq] at h
    exact .inl ⟨rfl, h.symm⟩
  · simp only [assign, Function.update_of_ne hs] at h
    exact .inr ⟨hs, h⟩

/-- The new dispatch id is above every id in use, so giving it out keeps the ids
apart. -/
theorem Consistent.assign {r : Roster Op} (h : r.Consistent) {shard : Nat}
    (hfree : r.slot shard = none) (ops : List Op) : (r.assign shard ops).Consistent where
  holder_holds := by
    intro op s hholder
    by_cases hop : op ∈ ops
    · have hs : shard = s := by simpa [Roster.assign, hop] using hholder
      exact ⟨⟨r.last + 1, ops, []⟩, by simp [Roster.assign, hs], hop⟩
    · have hold : r.holder op = some s := by simpa [Roster.assign, hop] using hholder
      obtain ⟨sl, hslot, hmem⟩ := h.holder_holds op s hold
      have hs : s ≠ shard := by
        rintro rfl
        simp [hfree] at hslot
      exact ⟨sl, by simp [Roster.assign, Function.update_of_ne hs, hslot], hmem⟩
  dispatch_le := by
    intro s sl hslot
    rcases slot_assign hslot with ⟨-, rfl⟩ | ⟨-, hold⟩
    · exact le_refl _
    · exact (h.dispatch_le s sl hold).trans (Nat.le_succ _)
  dispatch_injective := by
    intro s s' sl sl' hslot hslot' heq
    rcases slot_assign hslot with ⟨rfl, rfl⟩ | ⟨hs, hold⟩ <;>
      rcases slot_assign hslot' with ⟨rfl, rfl⟩ | ⟨hs', hold'⟩
    · rfl
    · have hle := h.dispatch_le s' sl' hold'
      simp only at heq
      omega
    · have hle := h.dispatch_le s sl hold
      simp only at heq
      omega
    · exact h.dispatch_injective s s' sl sl' hold hold' heq

end Roster

end Service
end ContestManagement
