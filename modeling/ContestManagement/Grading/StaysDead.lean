import ContestManagement.Grading.FloatReduction

/-!
# Whether a dead subtask stays dead

`SubtaskGate` calls a subtask failed as soon as the outcomes so far reduce to nothing.  Minimum and
threshold then never give anything again, whatever the outcomes.  A product does: with floats, two
further outcomes that overflow bring any product back, as an infinity or as no number.
-/

namespace ContestManagement
namespace Grading

open Lib

/-! ## Outcomes of a checker -/

/-- The first line of a text. -/
def firstLine (text : String) : List Char :=
  text.toList.takeWhile fun c => c ≠ '\n' ∧ c ≠ '\r'

/-- A character that `strip` takes away. -/
def isBlank (c : Char) : Bool :=
  Decimal.isSpace c ∨ (0x1c ≤ c.toNat ∧ c.toNat ≤ 0x1f) ∨ c.toNat ∈ Decimal.wideSpaces

def strip (text : List Char) : List Char :=
  ((text.dropWhile isBlank).reverse.dropWhile isBlank).reverse

/-- The outcome that `extract_outcome_and_text` reads from the standard output of a checker. -/
def extractOutcome (stdout : String) : Option PyFloat :=
  (Decimal.read (String.ofList (strip (firstLine stdout)))).map PyFloat.rounded

/-- A checker can give the outcome, and it is a finite number. -/
structure Admitted (outcome : PyFloat) : Prop where
  extracted : ∃ stdout, extractOutcome stdout = some outcome
  finite : ∃ q, outcome = .finite q

theorem Admitted.ne_nan {outcome : PyFloat} (h : Admitted outcome) : outcome ≠ .nan := by
  obtain ⟨q, rfl⟩ := h.finite
  exact PyFloat.noConfusion

/-- The outcome of a checker that says `1e200`, or that with the other sign. -/
def hugeOutcome (negative : Bool) : PyFloat :=
  .finite (if negative then -Binary64.nearest (10 ^ 200) else Binary64.nearest (10 ^ 200))

theorem admitted_hugeOutcome (negative : Bool) : Admitted (hugeOutcome negative) := by
  refine ⟨?_, _, rfl⟩
  cases negative with
  | true => exact ⟨"-1e200\n", by decide +kernel⟩
  | false => exact ⟨"1e200\n", by decide +kernel⟩

theorem hugeOutcome_mul (negative : Bool) :
    hugeOutcome negative * hugeOutcome false = .infinite negative := by
  cases negative with
  | true => decide +kernel
  | false => decide +kernel

/-! ## Further outcomes -/

/-- With further outcomes, behind these, before them or between them, nothing is left either. -/
def StaysDead (kind : GroupKind) (parameter : PyValue) (outcomes : List PyFloat) :
    Prop :=
  ∀ all : List PyFloat, outcomes.Sublist all → (∀ x ∈ all, Admitted x) →
    (outcomes <+: all → ∃ f, reduce kind all parameter = .ok f) ∧
    ∀ f, reduce kind all parameter = .ok f → f ≤ 0

variable {kind : GroupKind} {parameter : PyValue} {outcomes all : List PyFloat}
  {f : PyFloat}

theorem allWithin_append {threshold : PyValue} (more : List PyFloat)
    (h : allWithin threshold outcomes = .ok false) :
    allWithin threshold (outcomes ++ more) = .ok false := by
  induction outcomes with
  | nil => cases h
  | cons x rest ih =>
      rw [List.cons_append, allWithin]
      rw [allWithin] at h
      cases hx : withinThreshold threshold x with
      | error e =>
          rw [hx] at h
          cases h
      | ok within =>
          rw [hx] at h
          cases within with
          | true => exact ih h
          | false => rfl

/-- Behind outcomes that reduce to nothing, no further one makes the reduction raise. -/
theorem reduce_ok_behind (hbehind : outcomes <+: all)
    (h : reduce kind outcomes parameter = .ok f) (hf : f ≤ 0) :
    ∃ f', reduce kind all parameter = .ok f' := by
  obtain ⟨more, rfl⟩ := hbehind
  have hne : outcomes ≠ [] → outcomes ++ more ≠ [] := fun hne =>
    List.append_ne_nil_of_left_ne_nil hne more
  cases kind with
  | groupMin =>
      obtain ⟨outcome, rest, rfl, -⟩ := reduce_min_eq_ok_iff.1 h
      exact reduce_ok_of_readable (fun hkind => by cases hkind) (hne (List.cons_ne_nil _ _))
  | groupMul =>
      exact reduce_ok_of_readable (fun hkind => by cases hkind)
        (hne (reduce_product_iff.1 h).1)
  | groupThreshold =>
      obtain ⟨threshold, hthreshold, within, hwithin, rfl⟩ := reduce_threshold_eq_ok_iff.1 h
      cases within with
      | true => exact absurd hf PyFloat.not_one_nonpos
      | false =>
          exact ⟨0, reduce_threshold_eq_ok_iff.2
            ⟨threshold, hthreshold, false, allWithin_append more hwithin, rfl⟩⟩

theorem staysDead_of_ne (hkind : kind ≠ .groupMul)
    (h : reduce kind outcomes parameter = .ok f) (hf : f ≤ 0) :
    StaysDead kind parameter outcomes := by
  intro all hsub hall
  exact ⟨fun hbehind => reduce_ok_behind hbehind h hf, fun f' hf' =>
    reduce_nonpos_of_subset hkind hsub.subset (fun x hx => (hall x hx).ne_nan) h hf hf'⟩

/-- Every product comes back to life, with two huge outcomes in front of it. -/
theorem not_staysDead_groupMul (houtcomes : ∀ x ∈ outcomes, Admitted x) :
    ¬StaysDead .groupMul parameter outcomes := by
  intro h
  obtain ⟨negative, hrevived⟩ := PyFloat.exists_infinite_foldl outcomes
  have hproduct : PyFloat.product (hugeOutcome negative :: hugeOutcome false :: outcomes) =
      outcomes.foldl (· * ·) (.infinite negative) := by
    rw [PyFloat.product, List.foldl_cons, hugeOutcome_mul]
  refine hrevived ((h _ (((List.Sublist.refl outcomes).cons (hugeOutcome false)).cons
    (hugeOutcome negative)) ?_).2 _
      (reduce_product_iff.2 ⟨List.cons_ne_nil _ _, hproduct⟩))
  intro x hx
  rcases List.mem_cons.1 hx with rfl | hx
  · exact admitted_hugeOutcome negative
  · rcases List.mem_cons.1 hx with rfl | hx
    · exact admitted_hugeOutcome false
    · exact houtcomes x hx

/-- A dead subtask stays dead, unless outcomes are multiplied. -/
theorem staysDead_iff (houtcomes : ∀ x ∈ outcomes, Admitted x)
    (h : reduce kind outcomes parameter = .ok f) (hf : f ≤ 0) :
    StaysDead kind parameter outcomes ↔ kind ≠ .groupMul := by
  constructor
  · rintro hdead rfl
    exact not_staysDead_groupMul houtcomes hdead
  · intro hkind
    exact staysDead_of_ne hkind h hf

/-- One outcome of nothing, of a threshold and of a product. -/
theorem staysDead_iff_zero :
    StaysDead .groupThreshold (.list [.int 100, .int 2, .int 1]) [0] ∧
      ¬StaysDead .groupMul (.list [.int 100, .int 2]) [0] := by
  have hzero : ∀ x ∈ [(0 : PyFloat)], Admitted x := by
    intro x hx
    rw [List.mem_singleton.1 hx]
    exact ⟨⟨"0\n", by decide +kernel⟩, 0, rfl⟩
  constructor
  · exact (staysDead_iff (f := 0) hzero (by decide +kernel) PyFloat.zero_nonpos).2 (by decide)
  · exact fun h => (staysDead_iff (f := 0) hzero (by decide +kernel) PyFloat.zero_nonpos).1 h rfl

/-- Two checkers that say `-1` bring a dead subtask back to life, and so do two that say `1e200`. -/
theorem negative_product_revives :
    (extractOutcome "-1\n" = some (.finite (-1)) ∧
      reduce .groupMul [PyFloat.finite (-1)] (.list [.int 100, .int 2]) = .ok (.finite (-1)) ∧
      reduce .groupMul [PyFloat.finite (-1), .finite (-1)] (.list [.int 100, .int 2]) = .ok 1) ∧
    (extractOutcome "1e200\n" = some (hugeOutcome false) ∧
      reduce .groupMul [(0 : PyFloat)] (.list [.int 100, .int 3]) = .ok 0 ∧
      reduce .groupMul [hugeOutcome false, hugeOutcome false, 0] (.list [.int 100, .int 3]) =
        .ok .nan) ∧
    ¬StaysDead .groupMul (.list [.int 100, .int 2]) [.finite (-1)] := by
  have hadmitted : ∀ x ∈ [PyFloat.finite (-1), .finite (-1)], Admitted x := by
    intro x hx
    have hx : x = .finite (-1) := by simpa using hx
    rw [hx]
    exact ⟨⟨"-1\n", by decide +kernel⟩, -1, rfl⟩
  refine ⟨⟨by decide +kernel, by decide +kernel, by decide +kernel⟩,
    ⟨by decide +kernel, by decide +kernel, by decide +kernel⟩, ?_⟩
  intro h
  exact PyFloat.not_one_nonpos ((h [.finite (-1), .finite (-1)] (by simp) hadmitted).2 1
    (by decide +kernel))

end Grading
end ContestManagement
