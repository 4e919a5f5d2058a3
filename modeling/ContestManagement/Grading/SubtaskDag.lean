import ContestManagement.Lib.Python
import ContestManagement.Lib.Sweep
import Mathlib.Order.Bounds.Basic

/-!
# Dependencies between subtasks

`cms/grading/subtaskdag.py`, up to `zeroed_by`: reading the dependencies out of the
score type parameters, ordering the subtasks, and finding the subtasks that a
failed dependency makes worth nothing.

A vector with one element a subtask is a function of the subtask's number here.
The heap of ready subtasks is a list from which the least element is taken.
-/

namespace ContestManagement
namespace Grading

open Lib

/-- `DEPENDS_ON`. -/
def dependsOn : String := "depends_on"

/-- `HIDE_DEPENDENCY`. -/
def hideDependencyKey : String := "hide_dependency"

/-- `declares_dependencies`. -/
def declaresDependencies (parameters : PyValue) : Bool :=
  match parameters with
  | .list parameters => parameters.any fun parameter =>
      match parameter.get? dependsOn with
      | some value => value.truthy
      | none => false
  | _ => false

/-! ### Topological order -/

/-- The dependencies of one subtask. -/
def dependenciesOf (dependencies : List (List Nat)) (index : Nat) : List Nat :=
  dependencies.getD index []

/-- The subtasks that list `number`, once for each time they do. -/
def dependentsOf (dependencies : List (List Nat)) (number : Nat) : List Nat :=
  (List.range dependencies.length).flatMap fun index =>
    List.replicate ((dependenciesOf dependencies index).count number) index

/-- The loop variables of `topological_order`. -/
structure TopologicalState where
  remaining : Nat → Nat
  ready : List Nat
  order : List Nat

namespace TopologicalState

/-- `heapq.heappop`. -/
def heappop (ready : List Nat) : Option (Nat × List Nat) :=
  ready.min?.map fun least => (least, ready.erase least)

/-- The body of the inner loop. -/
def visit (s : TopologicalState) (dependent : Nat) : TopologicalState :=
  let remaining := Function.update s.remaining dependent (s.remaining dependent - 1)
  { s with
    remaining := remaining
    ready := if remaining dependent = 0 then s.ready ++ [dependent] else s.ready }

/-- `while ready`, for at most `fuel` iterations. -/
def loop (dependencies : List (List Nat)) : Nat → TopologicalState → TopologicalState
  | 0, s => s
  | fuel + 1, s =>
      match heappop s.ready with
      | none => s
      | some (current, rest) =>
          loop dependencies fuel
            ((dependentsOf dependencies current).foldl visit
              { s with ready := rest, order := s.order ++ [current] })

/-- The loop variables before the loop. -/
def start (dependencies : List (List Nat)) : TopologicalState where
  remaining := fun index => (dependenciesOf dependencies index).length
  ready := (List.range dependencies.length).filter fun index =>
    (dependenciesOf dependencies index).length = 0
  order := []

end TopologicalState

/-- `", ".join`. -/
def joinNumbers (numbers : List Nat) : String :=
  String.intercalate ", " (numbers.map toString)

/-- `topological_order`.  Every iteration puts another subtask in the order, so
there are at most as many iterations as subtasks. -/
def topologicalOrder (dependencies : List (List Nat)) : Except PyError (List Nat) :=
  let s := TopologicalState.loop dependencies dependencies.length
    (TopologicalState.start dependencies)
  if s.order.length ≠ dependencies.length then
    let inCycle := (List.range dependencies.length).filter fun index => 0 < s.remaining index
    .error (.valueError ("The subtask dependencies form a cycle; subtasks in it or " ++
      "depending on it: " ++ joinNumbers inCycle ++ "."))
  else .ok s.order

/-! ### Parsing -/

/-- The checks on one number of a `depends_on`. -/
def checkNumber (count index : Nat) (number : ℤ) : Except PyError Nat :=
  let last : ℤ := count - 1
  if ¬(0 ≤ number ∧ number < count) then
    .error (.valueError (s!"Subtask {index}: depends on subtask {number}, which does not exist " ++
      s!"(subtasks are numbered from 0 to {last})."))
  else if number = index then
    .error (.valueError s!"Subtask {index}: a subtask cannot depend on itself.")
  else .ok number.toNat

/-- The dependencies that one subtask declares. -/
def parseDependsOn (count index : Nat) (raw : PyValue) : Except PyError (List Nat) :=
  let malformed : Except PyError (List Nat) :=
    .error (.valueError s!"Subtask {index}: depends_on must be a list of subtask numbers.")
  match raw with
  | .list raw =>
      match raw.mapM PyValue.strictInt? with
      | none => malformed
      | some numbers => do
          let checked ← numbers.mapM (checkNumber count index)
          if checked.dedup.length ≠ checked.length then
            .error (.valueError s!"Subtask {index}: depends_on repeats a subtask.")
          else .ok (checked.insertionSort (· ≤ ·))
  | _ => malformed

/-- One iteration of `parse_dependencies`. -/
def parseDependency (count : Nat) (entry : PyValue × Nat) : Except PyError (List Nat) :=
  match entry.1.get? dependsOn with
  | none => .ok []
  | some raw => parseDependsOn count entry.2 raw

/-- `parse_dependencies`. -/
def parseDependencies (parameters : List PyValue) : Except PyError (List (List Nat)) := do
  let dependencies ← parameters.zipIdx.mapM (parseDependency parameters.length)
  let _ ← topologicalOrder dependencies
  return dependencies

/-- One iteration of `parse_hide_dependency`. -/
def parseHide (entry : PyValue × Nat) : Except PyError Bool :=
  match entry.1.get? hideDependencyKey with
  | none => .ok false
  | some (.bool b) => .ok b
  | some _ => .error (.valueError s!"Subtask {entry.2}: hide_dependency must be true or false.")

/-- `parse_hide_dependency`. -/
def parseHideDependency (parameters : List PyValue) : Except PyError (List Bool) :=
  parameters.zipIdx.mapM parseHide

/-! ### Zeroed subtasks -/

section Zeroed

variable {F : Type} [OfNat F 0] [LE F] [DecidableLE F]

/-- What `zeroed_by` finds for one subtask, from the fractions in force so far: the
dependency to blame and the fraction in force. -/
def zeroedRule (fractions : Nat → F) (dependencies : List (List Nat))
    (found : Nat → F × Option Nat) (index : Nat) : F × Option Nat :=
  let failed := (dependenciesOf dependencies index).filter fun number => (found number).1 ≤ 0
  match failed.min? with
  | some least => (0, some least)
  | none => (fractions index, none)

/-- `zeroed_by`, for each subtask. -/
def zeroedBy (fractions : Nat → F) (dependencies : List (List Nat)) :
    Except PyError (Nat → Option Nat) := do
  let order ← topologicalOrder dependencies
  let found := sweep (zeroedRule fractions dependencies) (fun index => (fractions index, none))
    order
  return fun index => (found index).2

end Zeroed

/-! ### What the order guarantees -/

theorem count_dependentsOf (dependencies : List (List Nat)) (number index : Nat) :
    (dependentsOf dependencies number).count index =
      (dependenciesOf dependencies index).count number := by
  have hsum : ∀ n, ((List.range n).map fun i =>
      (List.replicate ((dependenciesOf dependencies i).count number) i).count index).sum =
        if index < n then (dependenciesOf dependencies index).count number else 0 := by
    intro n
    induction n with
    | zero => simp
    | succ n ih =>
        rw [List.range_succ, List.map_append, List.sum_append, ih]
        simp only [List.map_cons, List.map_nil, List.sum_singleton, List.count_replicate,
          beq_iff_eq]
        by_cases hindex : n = index
        · subst hindex
          simp
        · rw [if_neg hindex]
          have hiff : index < n + 1 ↔ index < n := by omega
          simp [hiff]
  rw [dependentsOf, List.count_flatMap]
  refine (hsum dependencies.length).trans ?_
  by_cases hindex : index < dependencies.length
  · rw [if_pos hindex]
  · rw [if_neg hindex, dependenciesOf, List.getD_eq_getElem?_getD,
      List.getElem?_eq_none (by omega), Option.getD_none, List.count_nil]

/-- Taking one more number out of a list. -/
theorem length_filter_concat {order : List Nat} {current : Nat} (hcurrent : current ∉ order)
    (numbers : List Nat) :
    (numbers.filter (· ∉ order ++ [current])).length =
      (numbers.filter (· ∉ order)).length - numbers.count current := by
  have hsum : (numbers.filter (· ∉ order ++ [current])).length + numbers.count current =
      (numbers.filter (· ∉ order)).length := by
    induction numbers with
    | nil => simp
    | cons number rest ih =>
        by_cases heq : number = current
        · subst heq
          have hkept : number ∉ order := hcurrent
          simp only [List.filter_cons, List.count_cons_self, List.mem_append, List.mem_singleton,
            or_true, not_true_eq_false, decide_false, Bool.false_eq_true, if_false, hkept,
            not_false_eq_true, decide_true, if_true, List.length_cons]
          simp only [List.mem_append, List.mem_singleton] at ih
          omega
        · have hiff : number ∈ order ++ [current] ↔ number ∈ order := by simp [heq]
          rw [List.count_cons_of_ne (by simpa using heq)]
          simp only [List.filter_cons, hiff]
          split
          · simp only [List.length_cons]
            omega
          · exact ih
  omega

namespace TopologicalState

/-- The invariant of the loop. -/
structure Sound (dependencies : List (List Nat)) (s : TopologicalState) : Prop where
  topological : Topological (dependenciesOf dependencies) s.order
  order_lt : ∀ index ∈ s.order, index < dependencies.length
  nodup : s.ready.Nodup
  fresh : ∀ index ∈ s.ready, index ∉ s.order ∧ index < dependencies.length
  counted : ∀ index, s.remaining index =
    ((dependenciesOf dependencies index).filter (· ∉ s.order)).length
  free : ∀ index ∈ s.ready, s.remaining index = 0

/-- The inner loop: what it subtracts, and which subtasks it finds ready. -/
theorem foldl_visit (dependents : List Nat) (s : TopologicalState)
    (hcount : ∀ index, dependents.count index ≤ s.remaining index) (hnodup : s.ready.Nodup)
    (hfree : ∀ index ∈ s.ready, s.remaining index = 0) :
    (dependents.foldl visit s).order = s.order ∧
    (∀ index, (dependents.foldl visit s).remaining index =
      s.remaining index - dependents.count index) ∧
    (dependents.foldl visit s).ready.Nodup ∧
    ∀ index ∈ (dependents.foldl visit s).ready,
      (dependents.foldl visit s).remaining index = 0 ∧
        (index ∈ s.ready ∨ index ∈ dependents ∧ 0 < s.remaining index) := by
  induction dependents generalizing s with
  | nil =>
      refine ⟨rfl, by simp, hnodup, ?_⟩
      intro index hindex
      exact ⟨hfree index hindex, .inl hindex⟩
  | cons dependent rest ih =>
      have hpos : rest.count dependent + 1 ≤ s.remaining dependent := by
        simpa using hcount dependent
      have hnew : dependent ∉ s.ready := by
        intro hmem
        have := hfree dependent hmem
        omega
      have hother : ∀ index, index ≠ dependent →
          (s.visit dependent).remaining index = s.remaining index := fun index hne =>
        Function.update_of_ne hne _ _
      have hself : (s.visit dependent).remaining dependent = s.remaining dependent - 1 :=
        Function.update_self _ _ _
      have hready : ∀ index ∈ (s.visit dependent).ready, index ∈ s.ready ∨
          index = dependent ∧ (s.visit dependent).remaining dependent = 0 := by
        intro index hindex
        simp only [visit, Function.update_self] at hindex
        split at hindex
        · rename_i hzero
          rcases List.mem_append.1 hindex with hindex | hindex
          · exact .inl hindex
          · exact .inr ⟨List.mem_singleton.1 hindex, by rw [hself]; exact hzero⟩
        · exact .inl hindex
      have hcount' : ∀ index, rest.count index ≤ (s.visit dependent).remaining index := by
        intro index
        by_cases heq : index = dependent
        · subst heq
          omega
        · rw [hother index heq]
          have := hcount index
          rw [List.count_cons_of_ne (fun h => heq h.symm)] at this
          exact this
      have hnodup' : (s.visit dependent).ready.Nodup := by
        simp only [visit]
        split
        · rw [List.nodup_append]
          refine ⟨hnodup, List.nodup_singleton dependent, ?_⟩
          intro a ha b hb hab
          rw [List.mem_singleton] at hb
          exact hnew (hb ▸ hab ▸ ha)
        · exact hnodup
      have hfree' : ∀ index ∈ (s.visit dependent).ready,
          (s.visit dependent).remaining index = 0 := by
        intro index hindex
        rcases hready index hindex with hindex | ⟨rfl, hzero⟩
        · rw [hother index (fun heq => hnew (heq ▸ hindex))]
          exact hfree index hindex
        · exact hzero
      obtain ⟨horder, hremaining, hready', hall⟩ := ih (s.visit dependent) hcount' hnodup' hfree'
      refine ⟨horder, ?_, hready', ?_⟩
      · intro index
        rw [List.foldl_cons, hremaining index]
        by_cases heq : index = dependent
        · subst heq
          rw [hself, List.count_cons_self]
          omega
        · rw [hother index heq, List.count_cons_of_ne (fun h => heq h.symm)]
      · intro index hindex
        obtain ⟨hzero, hfrom⟩ := hall index hindex
        refine ⟨hzero, ?_⟩
        rcases hfrom with hfrom | ⟨hmem, hlt⟩
        · rcases hready index hfrom with hfrom | ⟨rfl, -⟩
          · exact .inl hfrom
          · exact .inr ⟨by simp, by omega⟩
        · right
          refine ⟨by simp [hmem], ?_⟩
          by_cases heq : index = dependent
          · subst heq
            omega
          · rw [hother index heq] at hlt
            exact hlt

theorem Sound.iterate {dependencies : List (List Nat)} {s : TopologicalState}
    (h : s.Sound dependencies) {current : Nat} {rest : List Nat}
    (hpop : heappop s.ready = some (current, rest)) :
    ((dependentsOf dependencies current).foldl visit
      { s with ready := rest, order := s.order ++ [current] }).Sound dependencies := by
  rw [heappop, Option.map_eq_some_iff] at hpop
  obtain ⟨least, hleast, heq⟩ := hpop
  rw [Prod.mk.injEq] at heq
  obtain ⟨rfl, rfl⟩ := heq
  have hmem : least ∈ s.ready := List.min?_mem hleast
  obtain ⟨hnew, hlt⟩ := h.fresh least hmem
  have hdone : ∀ d ∈ dependenciesOf dependencies least, d ∈ s.order := by
    have hnil := h.counted least
    rw [h.free least hmem] at hnil
    have hfilter := List.eq_nil_of_length_eq_zero hnil.symm
    intro d hd
    have := List.filter_eq_nil_iff.1 hfilter d hd
    simpa using this
  have htopological := h.topological.concat hnew hdone
  obtain ⟨horder, hremaining, hnodup, hready⟩ := foldl_visit (dependentsOf dependencies least)
    { s with ready := s.ready.erase least, order := s.order ++ [least] }
    (by
      intro index
      rw [count_dependentsOf]
      show _ ≤ s.remaining index
      rw [h.counted index, ← List.countP_eq_length_filter]
      refine List.countP_mono_left ?_
      intro d _ hd
      rw [beq_iff_eq] at hd
      simpa [hd] using hnew)
    (h.nodup.erase least)
    (fun index hindex => h.free index (List.mem_of_mem_erase hindex))
  -- What was counted before the pop, less what the pop settles.
  have hcounted : ∀ index, s.remaining index - (dependentsOf dependencies least).count index =
      ((dependenciesOf dependencies index).filter (· ∉ s.order ++ [least])).length := by
    intro index
    rw [length_filter_concat hnew, count_dependentsOf, h.counted index]
  constructor
  · rw [horder]
    exact htopological
  · rw [horder]
    intro index hindex
    rcases List.mem_append.1 hindex with hindex | hindex
    · exact h.order_lt index hindex
    · rw [List.mem_singleton] at hindex
      exact hindex ▸ hlt
  · exact hnodup
  · intro index hindex
    rw [horder]
    rcases (hready index hindex).2 with hfrom | ⟨hfrom, hpos⟩
    · have hne : index ≠ least := by
        rintro rfl
        exact h.nodup.not_mem_erase hfrom
      obtain ⟨hnot, hindexlt⟩ := h.fresh index (List.mem_of_mem_erase hfrom)
      exact ⟨by simp [hnot, hne], hindexlt⟩
    · constructor
      · intro hmem'
        -- The subtasks in the order have nothing left to wait for.
        have hzero : s.remaining index = 0 := by
          rcases List.mem_append.1 hmem' with hmem' | hmem'
          · rw [h.counted index, List.length_eq_zero_iff, List.filter_eq_nil_iff]
            intro d hd
            simpa using h.topological.reads_mem hmem' hd
          · rw [List.mem_singleton] at hmem'
            exact hmem' ▸ h.free least hmem
        simp only at hpos
        omega
      · rw [dependentsOf, List.mem_flatMap] at hfrom
        obtain ⟨i, hi, hmem'⟩ := hfrom
        rw [List.eq_of_mem_replicate hmem']
        exact List.mem_range.1 hi
  · intro index
    rw [hremaining index, horder]
    exact hcounted index
  · intro index hindex
    exact (hready index hindex).1

theorem sound_start (dependencies : List (List Nat)) : (start dependencies).Sound dependencies := by
  constructor
  · exact ⟨List.nodup_nil, fun first node rest hsplit => by simp [start] at hsplit⟩
  · simp [start]
  · exact List.nodup_range.filter _
  · intro index hindex
    rw [start, List.mem_filter, List.mem_range] at hindex
    exact ⟨by simp [start], hindex.1⟩
  · intro index
    simp [start]
  · intro index hindex
    rw [start, List.mem_filter, decide_eq_true_eq] at hindex
    exact hindex.2

theorem Sound.loop {dependencies : List (List Nat)} (fuel : Nat) {s : TopologicalState}
    (h : s.Sound dependencies) : (TopologicalState.loop dependencies fuel s).Sound dependencies := by
  induction fuel generalizing s with
  | zero => exact h
  | succ fuel ih =>
      rw [TopologicalState.loop]
      cases hpop : heappop s.ready with
      | none => exact h
      | some popped =>
          obtain ⟨current, rest⟩ := popped
          exact ih (h.iterate hpop)

theorem Sound.order_subperm {dependencies : List (List Nat)} {s : TopologicalState}
    (h : s.Sound dependencies) :
    s.order.Subperm (List.range dependencies.length) :=
  List.subperm_of_subset h.topological.nodup
    fun index hindex => List.mem_range.2 (h.order_lt index hindex)

theorem Sound.length_order_le {dependencies : List (List Nat)} {s : TopologicalState}
    (h : s.Sound dependencies) :
    s.order.length ≤ dependencies.length := by
  have hlength := h.order_subperm.length_le
  rwa [List.length_range] at hlength

/-- An order as long as the list of the subtasks has all of them. -/
theorem Sound.order_perm {dependencies : List (List Nat)} {s : TopologicalState}
    (h : s.Sound dependencies) (hlength : dependencies.length ≤ s.order.length) :
    s.order.Perm (List.range dependencies.length) := by
  apply h.order_subperm.perm_of_length_le
  rw [List.length_range]
  exact hlength

end TopologicalState

/-- On success the order has every subtask once, each after its dependencies. -/
theorem topologicalOrder_spec {dependencies : List (List Nat)} {order : List Nat}
    (h : topologicalOrder dependencies = .ok order) :
    Topological (dependenciesOf dependencies) order ∧
      ∀ index, index ∈ order ↔ index < dependencies.length := by
  have hsound := (TopologicalState.sound_start dependencies).loop dependencies.length
  rw [topologicalOrder] at h
  split at h
  · cases h
  · rename_i hlength
    cases h
    refine ⟨hsound.topological, fun index => ⟨hsound.order_lt index, ?_⟩⟩
    intro hindex
    have hperm := hsound.order_perm (by omega)
    exact hperm.mem_iff.2 (List.mem_range.2 hindex)

section Zeroed

variable {F : Type} [OfNat F 0] [LE F] [DecidableLE F]

/-- The cases of the rule: the least failed dependency is blamed, or there is none. -/
theorem zeroedRule_cases (fractions : Nat → F) (dependencies : List (List Nat))
    (found : Nat → F × Option Nat) (index : Nat) :
    (∃ least, zeroedRule fractions dependencies found index = (0, some least) ∧
      IsLeast {number | number ∈ dependenciesOf dependencies index ∧ (found number).1 ≤ 0} least) ∨
    ((∀ number ∈ dependenciesOf dependencies index, ¬(found number).1 ≤ 0) ∧
      zeroedRule fractions dependencies found index = (fractions index, none)) := by
  unfold zeroedRule
  dsimp only
  split
  · rename_i least hleast
    obtain ⟨hmem, hle⟩ := List.min?_eq_some_iff.1 hleast
    refine Or.inl ⟨least, rfl, by simpa using hmem, ?_⟩
    rintro number ⟨hnumber, hfailed⟩
    exact hle number (by simpa using ⟨hnumber, hfailed⟩)
  · rename_i hnone
    refine Or.inr ⟨fun number hnumber hfailed => ?_, rfl⟩
    have hnil := List.filter_eq_nil_iff.1 (List.min?_eq_none_iff.1 hnone) number hnumber
    exact hnil (by simpa using hfailed)

/-- The same dependency is blamed where the same dependencies failed. -/
theorem zeroedRule_congr {fractions fractions' : Nat → F} {dependencies : List (List Nat)}
    {found found' : Nat → F × Option Nat} {index : Nat}
    (h : ∀ number ∈ dependenciesOf dependencies index,
      ((found number).1 ≤ 0 ↔ (found' number).1 ≤ 0)) :
    (zeroedRule fractions dependencies found index).2 =
      (zeroedRule fractions' dependencies found' index).2 := by
  have hfailed : (dependenciesOf dependencies index).filter (fun number => (found number).1 ≤ 0) =
      (dependenciesOf dependencies index).filter fun number => (found' number).1 ≤ 0 := by
    refine List.filter_congr fun number hnumber => ?_
    rw [decide_eq_decide]
    exact h number hnumber
  rw [zeroedRule, zeroedRule, hfailed]
  split
  · rfl
  · rfl

/-- The fractions in force and the blamed dependencies, which `zeroedBy` gives the
second of. -/
theorem zeroedBy_spec {fractions : Nat → F} {dependencies : List (List Nat)}
    {zeroed : Nat → Option Nat} (h : zeroedBy fractions dependencies = .ok zeroed) :
    ∃ found : Nat → F × Option Nat,
      (∀ index < dependencies.length, found index = zeroedRule fractions dependencies found index) ∧
      ∀ index, zeroed index = (found index).2 := by
  rw [zeroedBy] at h
  cases horder : topologicalOrder dependencies with
  | error e =>
      rw [horder] at h
      cases h
  | ok order =>
      rw [horder] at h
      cases h
      obtain ⟨htopological, hmem⟩ := topologicalOrder_spec horder
      refine ⟨_, fun index hindex => ?_, fun index => rfl⟩
      refine sweep_eq ?_ _ htopological index ((hmem index).2 hindex)
      intro v w node hreads
      have hfailed : (dependenciesOf dependencies node).filter (fun number => (v number).1 ≤ 0) =
          (dependenciesOf dependencies node).filter fun number => (w number).1 ≤ 0 := by
        refine List.filter_congr ?_
        intro d hd
        rw [hreads d hd]
      rw [zeroedRule, zeroedRule, hfailed]

end Zeroed

end Grading
end ContestManagement
