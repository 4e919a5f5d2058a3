import Mathlib.Data.List.Nodup
import Mathlib.Data.List.Flatten
import Mathlib.Tactic.Common

/-!
# Queries over finite tables

Conditions have three values, of which null is neither true nor false; a filter and a branch of a
`case` only take what is true.  Inner joins pair the rows that match; a left outer join keeps the
rows that match nothing too, with no row next to them.
-/

namespace ContestManagement
namespace Lib

/-! ## Conditions -/

/-- The value of a condition: true, false or null. -/
abbrev Tri := Option Bool

namespace Tri

variable {α : Type} [DecidableEq α]

/-- `=`, which is null when a side is. -/
def eq : Option α → Option α → Tri
  | some a, some b => some (a = b)
  | _, _ => none

/-- `<>`, which is null when a side is. -/
def ne : Option α → Option α → Tri
  | some a, some b => some (a ≠ b)
  | _, _ => none

def or : Tri → Tri → Tri
  | some true, _ => some true
  | _, some true => some true
  | some false, some false => some false
  | _, _ => none

def and : Tri → Tri → Tri
  | some false, _ => some false
  | _, some false => some false
  | some true, some true => some true
  | _, _ => none

def not : Tri → Tri
  | some b => some (!b)
  | none => none

/-- Whether a condition is true. -/
def holds (t : Tri) : Bool := t = some true

@[simp] theorem holds_some (b : Bool) : holds (some b) = b := by
  cases b <;> rfl

@[simp] theorem holds_or (s t : Tri) : (or s t).holds = (s.holds || t.holds) := by
  rcases s with - | (- | -) <;> rcases t with - | (- | -) <;> rfl

@[simp] theorem holds_and (s t : Tri) : (and s t).holds = (s.holds && t.holds) := by
  rcases s with - | (- | -) <;> rcases t with - | (- | -) <;> rfl

theorem holds_eq_some (a : α) (b : Option α) : (eq (some a) b).holds = true ↔ b = some a := by
  cases b with
  | none => simp [eq, holds]
  | some b => simp [eq, eq_comm]

theorem holds_ne_some (a : α) (b : Option α) :
    (ne (some a) b).holds = true ↔ ∃ c, b = some c ∧ c ≠ a := by
  cases b with
  | none => simp [ne, holds]
  | some b => simp [ne, ne_comm]

end Tri

/-- `case`: the value of the first branch that is true. -/
def caseWhen {α : Type} : List (Tri × α) → α → α
  | [], other => other
  | (condition, value) :: rest, other =>
      if condition.holds then value else caseWhen rest other

/-! ## Joins -/

variable {α β : Type*}

/-- The pairs of rows that match. -/
def innerJoin (on : α → β → Bool) (left : List α) (right : List β) : List (α × β) :=
  left.flatMap fun a => (right.filter (on a)).map fun b => (a, b)

/-- The pairs of rows that match, and the left rows that match nothing. -/
def leftOuterJoin (on : α → β → Bool) (left : List α) (right : List β) : List (α × Option β) :=
  left.flatMap fun a =>
    match right.filter (on a) with
    | [] => [(a, none)]
    | b :: rest => (b :: rest).map fun b => (a, some b)

variable {on : α → β → Bool} {left : List α} {right : List β}

@[simp] theorem mem_innerJoin {a : α} {b : β} :
    (a, b) ∈ innerJoin on left right ↔ a ∈ left ∧ b ∈ right ∧ on a b = true := by
  simp [innerJoin]

/-- The left rows that match nothing. -/
theorem mem_leftOuterJoin_none {a : α} :
    (a, none) ∈ leftOuterJoin on left right ↔ a ∈ left ∧ ∀ b ∈ right, on a b = false := by
  unfold leftOuterJoin
  rw [List.mem_flatMap]
  constructor
  · rintro ⟨a', ha, hmem⟩
    split at hmem
    · rename_i hnone
      rw [List.mem_singleton, Prod.mk.injEq] at hmem
      obtain ⟨rfl, -⟩ := hmem
      rw [List.filter_eq_nil_iff] at hnone
      exact ⟨ha, fun b hb => by simpa using hnone b hb⟩
    · simp at hmem
  · rintro ⟨ha, hnone⟩
    refine ⟨a, ha, ?_⟩
    have hnil : right.filter (on a) = [] := by
      rw [List.filter_eq_nil_iff]
      intro b hb
      rw [hnone b hb]
      exact Bool.false_ne_true
    rw [hnil]
    exact List.mem_singleton_self _

theorem nodup_innerJoin (hleft : left.Nodup) (hright : right.Nodup) :
    (innerJoin on left right).Nodup := by
  rw [innerJoin, List.nodup_flatMap]
  constructor
  · intro a _
    exact (hright.filter _).map fun b b' h => (Prod.mk.inj h).2
  · refine hleft.imp fun {a a'} hne => ?_
    show List.Disjoint _ _
    rw [List.disjoint_left]
    intro row hrow hrow'
    obtain ⟨b, -, rfl⟩ := List.mem_map.1 hrow
    obtain ⟨b', -, h⟩ := List.mem_map.1 hrow'
    exact hne (Prod.mk.inj h).1.symm

/-- The left rows that match nothing come once each. -/
theorem nodup_leftOuterJoin (hleft : left.Nodup) (hright : right.Nodup) :
    (leftOuterJoin on left right).Nodup := by
  have hfirst : ∀ a row, (row ∈ match right.filter (on a) with
      | [] => [(a, (none : Option β))]
      | b :: rest => (b :: rest).map fun b => (a, some b)) → row.1 = a := by
    intro a row hrow
    split at hrow
    · rw [List.mem_singleton] at hrow
      rw [hrow]
    · obtain ⟨b, -, rfl⟩ := List.mem_map.1 hrow
      rfl
  rw [leftOuterJoin, List.nodup_flatMap]
  constructor
  · intro a _
    split
    · exact List.nodup_singleton _
    · rename_i b rest hrows
      have hnodup : (b :: rest).Nodup := hrows ▸ hright.filter _
      exact hnodup.map fun b b' h => Option.some.inj (Prod.mk.inj h).2
  · refine hleft.imp fun {a a'} hne => ?_
    show List.Disjoint _ _
    rw [List.disjoint_left]
    intro row hrow hrow'
    exact hne ((hfirst a row hrow).symm.trans (hfirst a' row hrow'))

end Lib
end ContestManagement
