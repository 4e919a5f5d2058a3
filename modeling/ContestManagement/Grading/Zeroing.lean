import ContestManagement.Grading.DependencyParsing
import Mathlib.Algebra.Order.Ring.Rat

/-!
# Which subtasks are zeroed

`zeroed_by` walks the subtasks once, and finds the failures that lie any number of dependencies
away.
-/

namespace ContestManagement
namespace Grading

open Lib

section Closure

variable {F : Type} [OfNat F 0] [LE F] {fractions : Nat → F} {dependencies : List (List Nat)}

/-- A subtask is worth nothing by itself, or depends on one that is, directly or not. -/
def Fails (fractions : Nat → F) (dependencies : List (List Nat)) (index : Nat) : Prop :=
  ∃ number, Relation.ReflTransGen (Reads (dependenciesOf dependencies)) index number ∧
    fractions number ≤ 0

/-- Some subtask further down is worth nothing. -/
def DependsOnFailure (fractions : Nat → F) (dependencies : List (List Nat)) (index : Nat) : Prop :=
  ∃ number, Relation.TransGen (Reads (dependenciesOf dependencies)) index number ∧
    fractions number ≤ 0

theorem dependsOnFailure_iff {index : Nat} : DependsOnFailure fractions dependencies index ↔
    ∃ number ∈ dependenciesOf dependencies index, Fails fractions dependencies number := by
  constructor
  · rintro ⟨number, hpath, hfails⟩
    obtain ⟨first, hfirst, hrest⟩ := Relation.TransGen.head'_iff.1 hpath
    exact ⟨first, hfirst, number, hrest, hfails⟩
  · rintro ⟨first, hfirst, number, hrest, hfails⟩
    exact ⟨number, Relation.TransGen.head' hfirst hrest, hfails⟩

theorem fails_iff {index : Nat} : Fails fractions dependencies index ↔
    fractions index ≤ 0 ∨ DependsOnFailure fractions dependencies index := by
  constructor
  · rintro ⟨number, hpath, hfails⟩
    rcases Relation.reflTransGen_iff_eq_or_transGen.1 hpath with rfl | hpath
    · exact Or.inl hfails
    · exact Or.inr ⟨number, hpath, hfails⟩
  · rintro (hfails | ⟨number, hpath, hfails⟩)
    · exact ⟨index, .refl, hfails⟩
    · exact ⟨number, hpath.to_reflTransGen, hfails⟩

variable [DecidableLE F]

/-- Along the order: the fraction in force is not positive exactly for the subtasks that fail. -/
theorem found_nonpos_iff (hzero : (0 : F) ≤ 0) {found : Nat → F × Option Nat} {order : List Nat}
    (horder : OrderOf dependencies order)
    (hfound : ∀ index < dependencies.length,
      found index = zeroedRule fractions dependencies found index) :
    ∀ index < dependencies.length, (found index).1 ≤ 0 ↔ Fails fractions dependencies index := by
  have hall : ∀ index ∈ order, (found index).1 ≤ 0 ↔ Fails fractions dependencies index := by
    refine horder.topological.induction ?_
    intro index hindex ih
    have hlt := List.mem_range.1 (horder.perm.subset hindex)
    rw [fails_iff, dependsOnFailure_iff]
    rcases zeroedRule_cases fractions dependencies found index with
      ⟨least, heq, ⟨hleast, hfailed⟩, -⟩ | ⟨hnone, heq⟩
    · rw [hfound index hlt, heq]
      exact ⟨fun _ => Or.inr ⟨least, hleast, (ih least hleast).1 hfailed⟩, fun _ => hzero⟩
    · rw [hfound index hlt, heq]
      refine ⟨Or.inl, ?_⟩
      rintro (hfails | ⟨number, hnumber, hfails⟩)
      · exact hfails
      · exact absurd ((ih number hnumber).2 hfails) (hnone number hnumber)
  intro index hindex
  exact hall index (horder.perm.mem_iff.2 (List.mem_range.2 hindex))

/-- With an order the zeroed subtasks are found. -/
theorem zeroedBy_of_order (hzero : (0 : F) ≤ 0) {order : List Nat} (hranged : InRange dependencies)
    (horder : topologicalOrder dependencies = .ok order) (hspec : OrderOf dependencies order)
    (fractions : Nat → F) :
    ∃ zeroed, zeroedBy fractions dependencies = .ok zeroed ∧
      ∀ index < dependencies.length,
        (zeroed index ≠ none ↔ DependsOnFailure fractions dependencies index) ∧
        ∀ least, zeroed index = some least →
          IsLeast {number | number ∈ dependenciesOf dependencies index ∧
            (fractions number ≤ 0 ∨ zeroed number ≠ none)} least := by
  have hok : ∃ zeroed, zeroedBy fractions dependencies = .ok zeroed := by
    unfold zeroedBy
    rw [horder]
    exact ⟨_, rfl⟩
  obtain ⟨zeroed, hzeroed⟩ := hok
  obtain ⟨found, hfound, hsecond⟩ := zeroedBy_spec hzeroed
  have hfails := found_nonpos_iff hzero hspec hfound
  have hdepends : ∀ index < dependencies.length,
      zeroed index ≠ none ↔ DependsOnFailure fractions dependencies index := by
    intro index hindex
    rw [hsecond index, hfound index hindex, dependsOnFailure_iff]
    rcases zeroedRule_cases fractions dependencies found index with
      ⟨least, heq, ⟨hleast, hfailed⟩, -⟩ | ⟨hnone, heq⟩
    · rw [heq]
      have hlt := hranged index least hleast
      exact ⟨fun _ => ⟨least, hleast, (hfails least hlt).1 hfailed⟩, fun _ => Option.some_ne_none _⟩
    · rw [heq]
      refine ⟨fun h => absurd rfl h, ?_⟩
      rintro ⟨number, hnumber, hfailed⟩
      have hlt := hranged index number hnumber
      exact absurd ((hfails number hlt).2 hfailed) (hnone number hnumber)
  refine ⟨zeroed, hzeroed, fun index hindex => ⟨hdepends index hindex, fun least hleast => ?_⟩⟩
  have hset : {number | number ∈ dependenciesOf dependencies index ∧
      (fractions number ≤ 0 ∨ zeroed number ≠ none)} =
      {number | number ∈ dependenciesOf dependencies index ∧ (found number).1 ≤ 0} := by
    ext number
    refine and_congr_right fun hnumber => ?_
    have hlt := hranged index number hnumber
    rw [hdepends number hlt, hfails number hlt, fails_iff]
  rw [hset]
  rw [hsecond index, hfound index hindex] at hleast
  rcases zeroedRule_cases fractions dependencies found index with ⟨least', heq, hisLeast⟩ | ⟨-, heq⟩
  · rw [heq] at hleast
    cases hleast
    exact hisLeast
  · rw [heq] at hleast
    cases hleast

/-- What `zeroed_by` finds for dependencies that were accepted. -/
theorem zeroedBy_of_parsed (hzero : (0 : F) ≤ 0) {parameters : List PyValue}
    (h : parseDependencies parameters = .ok dependencies) (fractions : Nat → F) :
    ∃ zeroed, zeroedBy fractions dependencies = .ok zeroed ∧
      ∀ index < dependencies.length,
        (zeroed index ≠ none ↔ DependsOnFailure fractions dependencies index) ∧
        ∀ least, zeroed index = some least →
          IsLeast {number | number ∈ dependenciesOf dependencies index ∧
            (fractions number ≤ 0 ∨ zeroed number ≠ none)} least := by
  obtain ⟨hread, hacyclic⟩ := parseDependencies_eq_ok_iff.1 h
  have hrange := inRange_of_read hread
  obtain ⟨order, horder, hspec, -⟩ := topologicalOrder_of_acyclic hrange hacyclic
  exact zeroedBy_of_order hzero hrange horder hspec fractions

end Closure

/-- Zeroed are the subtasks from which a path of dependencies leads to a failure; blamed is the
least dependency that failed or is zeroed itself. -/
theorem zeroedBy_failure_closure {parameters : List PyValue} {dependencies : List (List Nat)}
    (h : parseDependencies parameters = .ok dependencies) (fractions : Nat → ℚ) :
    ∃ zeroed, zeroedBy fractions dependencies = .ok zeroed ∧
      ∀ index < dependencies.length,
        (zeroed index ≠ none ↔ ∃ number,
          Relation.TransGen (fun i d => d ∈ dependenciesOf dependencies i) index number ∧
            fractions number ≤ 0) ∧
        ∀ least, zeroed index = some least →
          IsLeast {number | number ∈ dependenciesOf dependencies index ∧
            (fractions number ≤ 0 ∨ zeroed number ≠ none)} least :=
  zeroedBy_of_parsed le_rfl h fractions

theorem zeroedBy_failure_closure_chain :
    ∃ zeroed, zeroedBy (fun index => if index = 2 then (0 : ℚ) else 1) [[1], [2], []] =
        .ok zeroed ∧
      zeroed 0 ≠ none ∧ zeroed 2 = none := by
  have hparsed : parseDependencies [.dict [("depends_on", .list [.int 1])],
      .dict [("depends_on", .list [.int 2])], .list []] = .ok [[1], [2], []] := by decide
  obtain ⟨zeroed, hzeroed, hspec⟩ :=
    zeroedBy_failure_closure hparsed fun index => if index = 2 then (0 : ℚ) else 1
  refine ⟨zeroed, hzeroed, (hspec 0 (by decide)).1.2 ⟨2, ?_, by decide⟩, ?_⟩
  · exact .tail (.single (show 1 ∈ dependenciesOf [[1], [2], []] 0 by decide))
      (show 2 ∈ dependenciesOf [[1], [2], []] 1 by decide)
  · by_contra hne
    obtain ⟨number, hpath, -⟩ := (hspec 2 (by decide)).1.1 hne
    obtain ⟨first, hfirst, -⟩ := Relation.TransGen.head'_iff.1 hpath
    cases hfirst

end Grading
end ContestManagement
