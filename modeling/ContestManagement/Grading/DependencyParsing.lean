import ContestManagement.Grading.DependencyOrder

/-!
# What `parse_dependencies` accepts

Each `depends_on` is a list of different numbers of other subtasks, and no subtask depends on
itself through others.
-/

namespace ContestManagement
namespace Grading

open Lib

/-! ## One subtask -/

theorem mapM_strictInt_eq_some_iff {raw : List PyValue} {numbers : List ℤ} :
    raw.mapM PyValue.strictInt? = some numbers ↔ raw = numbers.map .int := by
  induction raw generalizing numbers with
  | nil => cases numbers with
    | nil => simp
    | cons number rest => simp
  | cons value rest ih =>
      rw [List.mapM_cons]
      cases value with
      | int i =>
          cases numbers with
          | nil => simp [PyValue.strictInt?, Option.bind_eq_some_iff]
          | cons number more =>
              rw [List.map_cons, List.cons.injEq, PyValue.int.injEq, ← ih]
              simp [PyValue.strictInt?, Option.bind_eq_some_iff, and_comm]
      | _ => cases numbers with
        | nil => simp [PyValue.strictInt?]
        | cons number more => simp [PyValue.strictInt?]

theorem list_map_int_inj {numbers others : List ℤ} :
    PyValue.list (numbers.map .int) = .list (others.map .int) ↔ others = numbers := by
  rw [PyValue.list.injEq, ← mapM_strictInt_eq_some_iff, mapM_strictInt_eq_some_iff.2 rfl,
    Option.some.injEq]
  exact eq_comm

theorem checkNumber_eq_ok_iff {count index : Nat} {number : ℤ} {checked : Nat} :
    checkNumber count index number = .ok checked ↔
      (0 ≤ number ∧ number < count ∧ number ≠ index) ∧ checked = number.toNat := by
  unfold checkNumber
  dsimp only
  split
  · rename_i hout
    constructor
    · intro h
      cases h
    · rintro ⟨⟨hlow, hhigh, -⟩, -⟩
      exact absurd ⟨hlow, hhigh⟩ hout
  · rename_i hin
    rw [not_not] at hin
    split
    · rename_i hself
      constructor
      · intro h
        cases h
      · rintro ⟨⟨-, -, hne⟩, -⟩
        exact absurd hself hne
    · rename_i hne
      rw [Except.ok.injEq]
      constructor
      · intro h
        exact ⟨⟨hin.1, hin.2, hne⟩, h.symm⟩
      · intro h
        exact h.2.symm

/-- The numbers of a `depends_on`. -/
structure AcceptedNumbers (count index : Nat) (numbers : List ℤ) : Prop where
  nodup : numbers.Nodup
  inRange : ∀ number ∈ numbers, 0 ≤ number ∧ number < count ∧ number ≠ index

theorem mapM_checkNumber_eq_ok_iff {count index : Nat} {numbers : List ℤ} {checked : List Nat} :
    numbers.mapM (checkNumber count index) = .ok checked ↔
      (∀ number ∈ numbers, 0 ≤ number ∧ number < count ∧ number ≠ index) ∧
        checked = numbers.map Int.toNat := by
  rw [mapM_eq_ok_iff]
  constructor
  · intro h
    induction h with
    | nil => simp
    | @cons number k rest more hnumber _ ih =>
        obtain ⟨hin, rfl⟩ := checkNumber_eq_ok_iff.1 hnumber
        refine ⟨?_, by rw [ih.2, List.map_cons]⟩
        intro other hother
        rcases List.mem_cons.1 hother with rfl | hother
        · exact hin
        · exact ih.1 other hother
  · rintro ⟨hin, rfl⟩
    rw [List.forall₂_map_right_iff, List.forall₂_same]
    exact fun number hnumber => checkNumber_eq_ok_iff.2 ⟨hin number hnumber, rfl⟩

theorem nodup_map_toNat_iff {numbers : List ℤ} (h : ∀ number ∈ numbers, 0 ≤ number) :
    (numbers.map Int.toNat).Nodup ↔ numbers.Nodup := by
  refine ⟨List.Nodup.of_map Int.toNat, fun hnodup => hnodup.map_on ?_⟩
  intro x hx y hy heq
  have hx := h x hx
  have hy := h y hy
  omega

theorem length_dedup_eq_iff {numbers : List Nat} :
    numbers.dedup.length = numbers.length ↔ numbers.Nodup := by
  rw [← List.dedup_eq_self]
  constructor
  · exact fun h => (List.dedup_sublist numbers).eq_of_length h
  · exact fun h => by rw [h]

theorem parseDependsOn_eq_ok_iff {count index : Nat} {raw : PyValue} {result : List Nat} :
    parseDependsOn count index raw = .ok result ↔
      ∃ numbers : List ℤ, raw = .list (numbers.map .int) ∧ AcceptedNumbers count index numbers ∧
        result = (numbers.map Int.toNat).insertionSort (· ≤ ·) := by
  unfold parseDependsOn
  dsimp only
  cases raw with
  | list values =>
      dsimp only
      cases hvalues : values.mapM PyValue.strictInt? with
      | none =>
          constructor
          · intro h
            cases h
          · rintro ⟨numbers, heq, -⟩
            rw [PyValue.list.injEq, ← mapM_strictInt_eq_some_iff, hvalues] at heq
            cases heq
      | some numbers =>
          obtain rfl := mapM_strictInt_eq_some_iff.1 hvalues
          simp only [list_map_int_inj, exists_eq_left, bind_eq_ok_iff, mapM_checkNumber_eq_ok_iff]
          constructor
          · rintro ⟨checked, ⟨hin, rfl⟩, h⟩
            split at h
            · cases h
            · rename_i hlength
              rw [not_not, length_dedup_eq_iff,
                nodup_map_toNat_iff fun number hnumber => (hin number hnumber).1] at hlength
              exact ⟨⟨hlength, hin⟩, (Except.ok.inj h).symm⟩
          · rintro ⟨⟨hnodup, hin⟩, rfl⟩
            refine ⟨_, ⟨hin, rfl⟩, ?_⟩
            rw [if_neg]
            rw [not_not, length_dedup_eq_iff]
            exact (nodup_map_toNat_iff fun number hnumber => (hin number hnumber).1).2 hnodup
  | _ =>
      constructor
      · intro h
        cases h
      · rintro ⟨numbers, heq, -⟩
        cases heq

/-! ## All subtasks -/

/-- A `depends_on`, if there is one, is a list of different numbers of other subtasks. -/
def AcceptedParameter (count index : Nat) (parameter : PyValue) : Prop :=
  ∀ raw, parameter.get? dependsOn = some raw →
    ∃ numbers : List ℤ, raw = .list (numbers.map .int) ∧ AcceptedNumbers count index numbers

/-- Subtask `index` lists `number` in its `depends_on`. -/
def Declares (parameters : List PyValue) (index number : Nat) : Prop :=
  ∃ (parameter : PyValue) (numbers : List ℤ), parameters[index]? = some parameter ∧
    parameter.get? dependsOn = some (.list (numbers.map .int)) ∧ (number : ℤ) ∈ numbers

theorem parseDependency_ok_iff {count index : Nat} {parameter : PyValue} :
    (∃ numbers, parseDependency count (parameter, index) = .ok numbers) ↔
      AcceptedParameter count index parameter := by
  unfold parseDependency AcceptedParameter
  cases hraw : parameter.get? dependsOn with
  | none => simp
  | some raw =>
      simp only [Option.some.injEq, forall_eq', parseDependsOn_eq_ok_iff]
      constructor
      · rintro ⟨numbers, others, heq, haccepted, -⟩
        exact ⟨others, heq, haccepted⟩
      · rintro ⟨others, heq, haccepted⟩
        exact ⟨_, others, heq, haccepted, rfl⟩

variable {parameters : List PyValue} {dependencies : List (List Nat)}

/-- The dependencies that the loop of `parse_dependencies` reads. -/
def readDependencies (parameters : List PyValue) : Except PyError (List (List Nat)) :=
  parameters.zipIdx.mapM (parseDependency parameters.length)

theorem readDependencies_ok_iff :
    (∃ dependencies, readDependencies parameters = .ok dependencies) ↔
      ∀ index parameter, parameters[index]? = some parameter →
        AcceptedParameter parameters.length index parameter := by
  constructor
  · rintro ⟨dependencies, h⟩ index parameter hget
    exact parseDependency_ok_iff.1
      (exists_ok_of_mapM_eq_ok h (List.mem_zipIdx_iff_getElem?.2 hget))
  · intro h
    refine mapM_ok_of_forall ?_
    rintro ⟨parameter, index⟩ hentry
    exact parseDependency_ok_iff.2 (h index parameter (List.mem_zipIdx_iff_getElem?.1 hentry))

/-- What was read is what was declared. -/
theorem reads_iff_declares (h : readDependencies parameters = .ok dependencies)
    {index number : Nat} :
    Reads (dependenciesOf dependencies) index number ↔ Declares parameters index number := by
  have hlength := length_of_mapM_eq_ok h
  rw [List.length_zipIdx] at hlength
  by_cases hindex : index < parameters.length
  · have hat := (mapM_eq_ok_iff.1 h).get (by rwa [List.length_zipIdx]) (hlength ▸ hindex)
    simp only [List.get_eq_getElem, List.getElem_zipIdx, Nat.zero_add] at hat
    have hreads : dependenciesOf dependencies index = dependencies[index] := by
      simp [dependenciesOf, hlength, hindex]
    unfold Reads Declares
    rw [hreads]
    simp only [List.getElem?_eq_getElem hindex, Option.some.injEq, exists_and_left,
      exists_eq_left']
    unfold parseDependency at hat
    dsimp only at hat
    cases hraw : parameters[index].get? dependsOn with
    | none =>
        rw [hraw] at hat
        rw [← Except.ok.inj hat]
        simp
    | some raw =>
        rw [hraw] at hat
        obtain ⟨numbers, rfl, haccepted, heq⟩ := parseDependsOn_eq_ok_iff.1 hat
        rw [heq, (List.perm_insertionSort _ _).mem_iff, List.mem_map]
        constructor
        · rintro ⟨z, hz, rfl⟩
          refine ⟨numbers, rfl, ?_⟩
          rwa [Int.toNat_of_nonneg (haccepted.inRange z hz).1]
        · rintro ⟨others, hothers, hmem⟩
          rw [Option.some.injEq, list_map_int_inj] at hothers
          subst hothers
          exact ⟨number, hmem, Int.toNat_natCast number⟩
  · constructor
    · intro hreads
      unfold Reads dependenciesOf at hreads
      rw [List.getD_eq_getElem?_getD, List.getElem?_eq_none (by omega)] at hreads
      cases hreads
    · rintro ⟨parameter, numbers, hget, -⟩
      exact absurd (List.getElem?_eq_some_iff.1 hget).1 hindex

theorem inRange_of_read (h : readDependencies parameters = .ok dependencies) :
    InRange dependencies := by
  intro index number hnumber
  obtain ⟨parameter, numbers, hget, hraw, hmem⟩ := (reads_iff_declares h).1 hnumber
  have haccepted := readDependencies_ok_iff.1 ⟨dependencies, h⟩ index parameter hget
  obtain ⟨others, heq, hothers⟩ := haccepted _ hraw
  rw [list_map_int_inj] at heq
  subst heq
  have hlt := (hothers.inRange _ hmem).2.1
  have hlength := length_of_mapM_eq_ok h
  rw [List.length_zipIdx] at hlength
  omega

theorem acyclic_iff_of_read (h : readDependencies parameters = .ok dependencies) :
    Acyclic dependencies ↔ ∀ index, ¬Relation.TransGen (Declares parameters) index index := by
  have hsame : Reads (dependenciesOf dependencies) = Declares parameters := by
    funext index number
    exact propext (reads_iff_declares h)
  rw [Acyclic, hsame]

theorem parseDependencies_eq_ok_iff : parseDependencies parameters = .ok dependencies ↔
    readDependencies parameters = .ok dependencies ∧ Acyclic dependencies := by
  change readDependencies parameters >>= _ = _ ↔ _
  rw [bind_eq_ok_iff]
  constructor
  · rintro ⟨read, hread, h⟩
    obtain ⟨order, horder, hpure⟩ := bind_eq_ok_iff.1 h
    obtain rfl := pure_eq_ok_iff.1 hpure
    refine ⟨hread, ?_⟩
    by_contra hcycle
    obtain ⟨numbers, herror, -⟩ := topologicalOrder_of_cycle (inRange_of_read hread) hcycle
    rw [horder] at herror
    cases herror
  · rintro ⟨hread, hacyclic⟩
    obtain ⟨order, horder, -⟩ := topologicalOrder_of_acyclic (inRange_of_read hread) hacyclic
    exact ⟨dependencies, hread, by rw [horder]; rfl⟩

/-- Accepted are the lists of different numbers of other subtasks without a cycle; the order of an
accepted graph is the least one, and a graph with cycles is refused with the subtasks that lie on
them or depend on one. -/
theorem dependencies_accepted_and_ordered (parameters : List PyValue) :
    ((∃ dependencies, parseDependencies parameters = .ok dependencies) ↔
      (∀ index parameter, parameters[index]? = some parameter →
        AcceptedParameter parameters.length index parameter) ∧
      ∀ index, ¬Relation.TransGen (Declares parameters) index index) ∧
    (∀ dependencies, parseDependencies parameters = .ok dependencies →
      (∀ index number, number ∈ dependenciesOf dependencies index ↔
        Declares parameters index number) ∧
      ∃ order, topologicalOrder dependencies = .ok order ∧ OrderOf dependencies order ∧
        ∀ other, OrderOf dependencies other → order = other ∨ List.Lex (· < ·) order other) ∧
    ∀ dependencies, InRange dependencies → ¬Acyclic dependencies →
      ∃ numbers, topologicalOrder dependencies = .error (.valueError
          ("The subtask dependencies form a cycle; subtasks in it or depending on it: " ++
            joinNumbers numbers ++ ".")) ∧
        numbers.Pairwise (· < ·) ∧
        ∀ index, index ∈ numbers ↔
          index < dependencies.length ∧ ReachesCycle (dependenciesOf dependencies) index := by
  refine ⟨?_, ?_, fun dependencies => topologicalOrder_of_cycle⟩
  · rw [← readDependencies_ok_iff]
    constructor
    · rintro ⟨dependencies, h⟩
      obtain ⟨hread, hacyclic⟩ := parseDependencies_eq_ok_iff.1 h
      exact ⟨⟨dependencies, hread⟩, (acyclic_iff_of_read hread).1 hacyclic⟩
    · rintro ⟨⟨dependencies, hread⟩, hacyclic⟩
      exact ⟨dependencies,
        parseDependencies_eq_ok_iff.2 ⟨hread, (acyclic_iff_of_read hread).2 hacyclic⟩⟩
  · intro dependencies h
    obtain ⟨hread, hacyclic⟩ := parseDependencies_eq_ok_iff.1 h
    exact ⟨fun index number => reads_iff_declares hread,
      topologicalOrder_of_acyclic (inRange_of_read hread) hacyclic⟩

example : topologicalOrder [[2], [], [], [0, 1]] = .ok [1, 2, 0, 3] := by decide

end Grading
end ContestManagement
