import ContestManagement.Grading.Feedback
import ContestManagement.Grading.Scorable
import ContestManagement.Lib.Rounding

/-!
# Scores within the announced maxima

Each subtask is rounded to the precision of the task, and its maximum has no more decimals than
that; so rounding takes no score above its maximum, and the rounding at the end changes nothing.
-/

namespace ContestManagement
namespace Grading

open Lib
open Decimal (roundTo HasDecimals)

variable {st : ScoreTypeGroup} {result : ScoredResult} {parameter : PyValue}
  {target : List String}

/-! ## One subtask -/

theorem reduce_le_one {kind : GroupKind} {outcomes : List ℚ} {q : ℚ}
    (houtcomes : ∀ x ∈ outcomes, 0 ≤ x ∧ x ≤ 1) (h : reduce kind outcomes parameter = .ok q) :
    q ≤ 1 := by
  cases kind with
  | groupMin =>
      rw [reduce_groupMin_eq_ok_iff] at h
      exact (houtcomes q (List.min?_mem h)).2
  | groupMul =>
      rw [reduce_groupMul_eq_ok_iff] at h
      have hle := List.prod_map_le_prod_map₀ (s := outcomes) id (fun _ => 1)
        (fun x hx => (houtcomes x hx).1) fun x hx => (houtcomes x hx).2
      rw [h.2]
      simpa using hle
  | groupThreshold =>
      obtain ⟨-, -, within, -, rfl⟩ := reduce_threshold_eq_ok_iff.1 h
      cases within with
      | true => simp
      | false => simp

/-- The maximum that the constructor accepts has no more decimals than the task. -/
theorem getMaxScore_hasDecimals {scorePrecision : Nat} {maxScore : ℚ}
    (h : getMaxScore scorePrecision parameter = .ok maxScore) :
    HasDecimals scorePrecision maxScore := by
  rw [getMaxScore, bind_eq_ok_iff] at h
  obtain ⟨value, -, h⟩ := h
  split at h
  · cases h
  · split at h
    · rename_i heq
      cases h
      exact Decimal.roundTo_eq_self_iff.1 heq
    · cases h

/-- The outcomes of a result. -/
def OutcomesInUnit (result : ScoredResult) : Prop :=
  ∀ e ∈ result.evaluations, 0 ≤ e.outcome ∧ e.outcome ≤ 1

theorem OutcomesInUnit.outcomeAt (h : OutcomesInUnit result) (codename : String) :
    0 ≤ outcomeAt result.evaluations codename ∧ outcomeAt result.evaluations codename ≤ 1 := by
  unfold Grading.outcomeAt outcomeOf
  cases hfind : result.evaluations.find? (fun e => e.codename = codename) with
  | none => simp
  | some e => simpa using h e (List.mem_of_find?_eq_some hfind)

/-- The fraction of a subtask. -/
theorem OutcomesInUnit.own (h : OutcomesInUnit result) {own : ℚ}
    (hown : st.ownFraction result.evaluations parameter target = .ok own) : 0 ≤ own ∧ own ≤ 1 := by
  have hreduce := reduce_of_ownFraction hown
  have houtcomes : ∀ x ∈ target.map (Grading.outcomeAt result.evaluations), 0 ≤ x ∧ x ≤ 1 := by
    intro x hx
    obtain ⟨codename, -, rfl⟩ := List.mem_map.1 hx
    exact h.outcomeAt codename
  exact ⟨reduce_nonneg (fun x hx => (houtcomes x hx).1) hreduce, reduce_le_one houtcomes hreduce⟩

/-- A rounded part of a maximum lies between zero and the maximum. -/
theorem rounded_within {digits : Nat} {fraction maxScore : ℚ} (hfraction : 0 ≤ fraction)
    (hone : fraction ≤ 1) (hmaxScore : 0 ≤ maxScore) (hdecimals : HasDecimals digits maxScore) :
    0 ≤ roundTo digits (fraction * maxScore) ∧ roundTo digits (fraction * maxScore) ≤ maxScore := by
  constructor
  · rw [← Decimal.roundTo_zero digits]
    exact Decimal.roundTo_mono digits (mul_nonneg hfraction hmaxScore)
  · calc
      roundTo digits (fraction * maxScore) ≤ roundTo digits maxScore :=
        Decimal.roundTo_mono digits (mul_le_of_le_one_left hmaxScore hone)
      _ = maxScore := Decimal.roundTo_eq_self_iff.2 hdecimals

/-- The points that the details of a subtask show. -/
def SubtaskDetails.points (subtask : SubtaskDetails) : ℚ :=
  match subtask.scores with
  | some scores => scores.score
  | none => 0

/-- What a subtask adds to a score, beside what it adds to the maximum. -/
structure Bounded (maximum : ℚ × Bool × String) (entry : SubtaskEntry) : Prop where
  isAllPublic : maximum.2.1 = entry.isAllPublic
  nonneg : 0 ≤ entry.roundedScore
  le : entry.roundedScore ≤ maximum.1

theorem bounded_of_scored {index : Nat} {zeroed : Nat → Option Nat}
    {maximum : ℚ × Bool × String} {entry : SubtaskEntry}
    (hprecision : result.scorePrecision = st.scorePrecision) (houtcomes : OutcomesInUnit result)
    (hnonneg : ∀ maxScore, getMaxScore st.scorePrecision parameter = .ok maxScore → 0 ≤ maxScore)
    (hmaximum : maxScoreOf st.publicTestcases st.scorePrecision ((parameter, target), index) =
      .ok maximum)
    (hentry : st.scoreSubtask result zeroed ((parameter, target), index) = .ok entry) :
    Bounded maximum entry := by
  obtain ⟨own, maxScore, hown, hmaxScore, hpublic, hsummary⟩ := scoreSubtask_spec hentry
  simp only [maxScoreOf, bind_eq_ok_iff, pure_eq_ok_iff] at hmaximum
  obtain ⟨maxScore', hmaxScore', flag, hflag, rfl⟩ := hmaximum
  rw [hmaxScore] at hmaxScore'
  cases hmaxScore'
  rw [hpublic] at hflag
  have hrounded : entry.roundedScore = roundTo st.scorePrecision
      ((if (zeroed index).isSome then 0 else own) * maxScore) := by
    rw [← hprecision]
    exact congrArg SubtaskSummary.roundedScore hsummary
  have hunit := houtcomes.own hown
  have hwithin : 0 ≤ entry.roundedScore ∧ entry.roundedScore ≤ maxScore := by
    rw [hrounded]
    apply rounded_within
    · split
      · exact le_refl 0
      · exact hunit.1
    · split
      · exact zero_le_one
      · exact hunit.2
    · exact hnonneg maxScore hmaxScore
    · exact getMaxScore_hasDecimals hmaxScore
  exact ⟨(Except.ok.inj hflag).symm, hwithin.1, hwithin.2⟩

/-- What a subtask shows: its points, which are hidden in public unless it is all public. -/
structure Pointed (digits : Nat) (entry : SubtaskEntry) : Prop where
  points : entry.subtask.points = entry.roundedScore
  publicPoints : entry.publicSubtask.points = if entry.isAllPublic then entry.roundedScore else 0
  zeroed : entry.subtask.zeroedByDependency ≠ none → entry.roundedScore = 0
  decimals : HasDecimals digits entry.roundedScore

theorem pointed_of_scoreSubtask {index : Nat} {zeroed : Nat → Option Nat} {entry : SubtaskEntry}
    (h : st.scoreSubtask result zeroed ((parameter, target), index) = .ok entry) :
    Pointed result.scorePrecision entry := by
  obtain ⟨own, maxScore, -, -, -, hsummary⟩ := scoreSubtask_spec h
  obtain ⟨testcases, own', hrows⟩ := entryRows_of_scoreSubtask h
  have hrounded : entry.roundedScore = roundTo result.scorePrecision
      ((if (zeroed index).isSome then 0 else own) * maxScore) :=
    congrArg SubtaskSummary.roundedScore hsummary
  have hscores : entry.subtask.scores = some ⟨if (zeroed index).isSome then 0 else own,
      roundTo result.scorePrecision ((if (zeroed index).isSome then 0 else own) * maxScore),
      maxScore⟩ :=
    congrArg SubtaskSummary.scores hsummary
  have hzeroed : entry.subtask.zeroedByDependency = zeroed index :=
    congrArg SubtaskSummary.zeroedByDependency hsummary
  have hpoints : entry.subtask.points = entry.roundedScore := by
    rw [SubtaskDetails.points, hscores, hrounded]
  constructor
  · exact hpoints
  · have hwithout : ∀ shown : SubtaskDetails,
        shown.withoutDependencyMessages.points = shown.points := fun shown => rfl
    have hshown : (if entry.isAllPublic then entry.subtask else
        hiddenSubtask index (zeroed index) (testcases.map (ScoreTypeGroup.markFeedback
          (markedBy own' parameter testcases)))).points =
        if entry.isAllPublic then entry.roundedScore else 0 := by
      split
      · exact hpoints
      · rfl
    rw [hrows.publicSubtask]
    dsimp only
    split
    · rw [hwithout, hshown]
    · exact hshown
  · intro hne
    rw [hzeroed] at hne
    rw [hrounded, if_pos (Option.isSome_iff_ne_none.2 hne), zero_mul, Decimal.roundTo_zero]
  · rw [hrounded]
    exact Decimal.hasDecimals_roundTo _ _

/-! ## Sums over the subtasks -/

theorem sums_of_bounded {maxima : List (ℚ × Bool × String)} {entries : List SubtaskEntry}
    (h : List.Forall₂ Bounded maxima entries) :
    (0 ≤ (entries.map SubtaskEntry.roundedScore).sum ∧
      (entries.map SubtaskEntry.roundedScore).sum ≤ (maxima.map Prod.fst).sum) ∧
    0 ≤ ((entries.filter SubtaskEntry.isAllPublic).map SubtaskEntry.roundedScore).sum ∧
    ((entries.filter SubtaskEntry.isAllPublic).map SubtaskEntry.roundedScore).sum ≤
      ((maxima.filter fun maximum => maximum.2.1).map Prod.fst).sum ∧
    ((maxima.filter fun maximum => maximum.2.1).map Prod.fst).sum ≤ (maxima.map Prod.fst).sum := by
  induction h with
  | nil => simp
  | @cons maximum entry maxima entries hbounded _ ih =>
      have hnonneg := hbounded.nonneg
      have hle := hbounded.le
      simp only [List.map_cons, List.sum_cons, List.filter_cons, hbounded.isAllPublic]
      split
      · simp only [List.map_cons, List.sum_cons]
        refine ⟨⟨?_, ?_⟩, ?_, ?_, ?_⟩ <;> linarith [ih.1.1, ih.1.2, ih.2.1, ih.2.2.1, ih.2.2.2]
      · refine ⟨⟨?_, ?_⟩, ?_, ?_, ?_⟩ <;> linarith [ih.1.1, ih.1.2, ih.2.1, ih.2.2.1, ih.2.2.2]

theorem map_points {digits : Nat} {entries : List SubtaskEntry}
    (h : ∀ entry ∈ entries, Pointed digits entry) :
    (entries.map SubtaskEntry.subtask).map SubtaskDetails.points =
      entries.map SubtaskEntry.roundedScore := by
  rw [List.map_map]
  exact List.map_congr_left fun entry hentry => (h entry hentry).points

/-- The scores of the subtasks have no more decimals than the task, so neither has their sum. -/
theorem score_eq_sum {digits : Nat} {entries : List SubtaskEntry}
    (h : ∀ entry ∈ entries, Pointed digits entry) :
    (resultOf digits entries).score = (entries.map SubtaskEntry.roundedScore).sum := by
  apply Decimal.roundTo_eq_self_iff.2
  apply Decimal.hasDecimals_sum
  intro q hq
  obtain ⟨entry, hentry, rfl⟩ := List.mem_map.1 hq
  exact (h entry hentry).decimals

theorem points_of_zeroed {digits : Nat} {entries : List SubtaskEntry}
    (h : ∀ entry ∈ entries, Pointed digits entry) {index : Nat}
    {subtask publicSubtask : SubtaskDetails}
    (hsubtask : (entries.map SubtaskEntry.subtask)[index]? = some subtask)
    (hpublic : (entries.map SubtaskEntry.publicSubtask)[index]? = some publicSubtask)
    (hzeroed : subtask.zeroedByDependency ≠ none) :
    subtask.points = 0 ∧ publicSubtask.points = 0 := by
  rw [List.getElem?_map, Option.map_eq_some_iff] at hsubtask hpublic
  obtain ⟨entry, hentry, rfl⟩ := hsubtask
  obtain ⟨entry', hentry', rfl⟩ := hpublic
  rw [hentry] at hentry'
  cases hentry'
  have hpointed := h entry (List.mem_of_getElem? hentry)
  have hzero := hpointed.zeroed hzeroed
  rw [hpointed.points, hpointed.publicPoints, hzero, ite_self]
  exact ⟨rfl, rfl⟩

theorem sum_publicPoints {digits : Nat} {entries : List SubtaskEntry}
    (h : ∀ entry ∈ entries, Pointed digits entry) :
    ((entries.map SubtaskEntry.publicSubtask).map SubtaskDetails.points).sum =
      ((entries.filter SubtaskEntry.isAllPublic).map SubtaskEntry.roundedScore).sum := by
  induction entries with
  | nil => rfl
  | cons entry rest ih =>
      rw [List.forall_mem_cons] at h
      rw [List.map_cons, List.map_cons, List.sum_cons, ih h.2, h.1.publicPoints, List.filter_cons]
      split
      · rw [List.map_cons, List.sum_cons]
      · rw [zero_add]

/-! ## The whole result -/

/-- The scores lie between zero and the maxima of the constructor; a subtask that a dependency
zeroes gives nothing, and the rounding at the end changes nothing. -/
theorem scores_within_maxima {compile : String → Except PyError (String → Bool)} {kind : GroupKind}
    {parameters : PyValue} {publicTestcases : List (String × Bool)} {scorePrecision : Nat}
    (h : ScoreTypeGroup.create compile kind parameters publicTestcases scorePrecision = .ok st)
    (hnonneg : ∀ parameter ∈ st.parameters, ∀ maxScore,
      getMaxScore st.scorePrecision parameter = .ok maxScore → 0 ≤ maxScore)
    (hresult : FullyEvaluated st result)
    (hprecision : result.scorePrecision = st.scorePrecision) (houtcomes : OutcomesInUnit result)
    {r : ScoreResult} (hr : st.computeScore compile result = .ok r) :
    maxScores compile st.parameters st.publicTestcases st.scorePrecision =
        .ok (st.maxScore, st.maxPublicScore, st.rankingHeaders) ∧
      (0 ≤ r.score ∧ r.score ≤ st.maxScore) ∧
      (0 ≤ r.publicScore ∧ r.publicScore ≤ st.maxPublicScore ∧ st.maxPublicScore ≤ st.maxScore) ∧
      (∀ (index : Nat) (subtask publicSubtask : SubtaskDetails), r.subtasks[index]? = some subtask →
        r.publicSubtasks[index]? = some publicSubtask → subtask.zeroedByDependency ≠ none →
          subtask.points = 0 ∧ publicSubtask.points = 0) ∧
      r.score = roundTo st.scorePrecision (r.subtasks.map SubtaskDetails.points).sum ∧
      r.score = (r.subtasks.map SubtaskDetails.points).sum ∧
      r.publicScore = (r.publicSubtasks.map SubtaskDetails.points).sum := by
  obtain ⟨hcreated, -⟩ := created_of_create h
  have hmaxima := hcreated.maxima
  simp only [maxScores, bind_eq_ok_iff, pure_eq_ok_iff, Prod.mk.injEq] at hmaxima
  obtain ⟨targets, htargets, maxima, hmaximaOk, hmax, hmaxPublic, -⟩ := hmaxima
  obtain ⟨targets', zeroed, entries, htargets', -, hentries, rfl⟩ :=
    (computeScore_eq_ok_iff hresult.evaluated).1 hr
  rw [htargets] at htargets'
  cases htargets'
  have hbounded : List.Forall₂ Bounded maxima entries := by
    apply (forall₂_of_mapM_eq_ok hmaximaOk hentries).imp
    rintro maximum entry ⟨⟨⟨parameter, target⟩, index⟩, hmem, hmaximum, hentry⟩
    have hparameter : parameter ∈ st.parameters :=
      (List.of_mem_zip (List.fst_mem_of_mem_zipIdx hmem)).1
    exact bounded_of_scored hprecision houtcomes (hnonneg parameter hparameter) hmaximum hentry
  have hpointed : ∀ entry ∈ entries, Pointed st.scorePrecision entry := by
    intro entry hentry
    obtain ⟨⟨⟨parameter, target⟩, index⟩, -, hscored⟩ := exists_of_mem_mapM hentries hentry
    rw [← hprecision]
    exact pointed_of_scoreSubtask hscored
  have hscore : (resultOf result.scorePrecision entries).score =
      (entries.map SubtaskEntry.roundedScore).sum := by
    rw [hprecision]
    exact score_eq_sum hpointed
  obtain ⟨⟨hscoreNonneg, hscoreLe⟩, hpublicNonneg, hpublicLe, hmaxLe⟩ := sums_of_bounded hbounded
  refine ⟨hcreated.maxima, ⟨?_, ?_⟩, ⟨hpublicNonneg, ?_, ?_⟩, ?_, ?_, ?_, ?_⟩
  · rw [hscore]
    exact hscoreNonneg
  · rw [hscore, ← hmax]
    exact hscoreLe
  · rw [← hmaxPublic]
    exact hpublicLe
  · rw [← hmaxPublic, ← hmax]
    exact hmaxLe
  · intro index subtask publicSubtask hsubtask hpublic hne
    exact points_of_zeroed hpointed hsubtask hpublic hne
  · show roundTo result.scorePrecision (entries.map SubtaskEntry.roundedScore).sum =
      roundTo st.scorePrecision ((entries.map SubtaskEntry.subtask).map SubtaskDetails.points).sum
    rw [map_points hpointed, hprecision]
  · rw [hscore]
    exact congrArg List.sum (map_points hpointed).symm
  · exact (sum_publicPoints hpointed).symm

/-- The second subtask depends on the first one. -/
def boundedParameters : PyValue :=
  .list [.list [.int 40, .list [.str "000"]],
    .dict [("max_score", .float (61 / 2)), ("testcases", .list [.str "001"]),
      ("depends_on", .list [.int 0])]]

def boundedScoreType : ScoreTypeGroup :=
  (ScoreTypeGroup.create (fun _ => .error .typeError) .groupMul boundedParameters
    [("000", false), ("001", true)] 1).toOption.get (by decide +kernel)

/-- The first subtask has no points, which takes those of the second one. -/
def boundedResult : ScoredResult :=
  { resultWith boundedScoreType.publicTestcases fun codename => if codename = "000" then 0 else 1 with
    scorePrecision := 1 }

def boundedDetails : ScoreResult :=
  (boundedScoreType.computeScore (fun _ => .error .typeError) boundedResult).toOption.get
    (by decide +kernel)

theorem scores_within_maxima_dependent :
    boundedDetails.score ≤ boundedScoreType.maxScore ∧
      boundedDetails.publicScore ≤ boundedScoreType.maxPublicScore ∧
      boundedDetails.score = (boundedDetails.subtasks.map SubtaskDetails.points).sum := by
  have hmaxima : boundedScoreType.parameters.map (getMaxScore boundedScoreType.scorePrecision) =
      [.ok 40, .ok (61 / 2)] := by
    decide +kernel
  have hnonneg : ∀ parameter ∈ boundedScoreType.parameters, ∀ maxScore,
      getMaxScore boundedScoreType.scorePrecision parameter = .ok maxScore → 0 ≤ maxScore := by
    intro parameter hparameter maxScore hmaxScore
    have hmem := List.mem_map_of_mem (f := getMaxScore boundedScoreType.scorePrecision) hparameter
    rw [hmaxima, hmaxScore] at hmem
    simp only [List.mem_cons, Except.ok.injEq, List.not_mem_nil, or_false] at hmem
    rcases hmem with rfl | rfl
    · norm_num
    · norm_num
  have hunit : OutcomesInUnit boundedResult := by
    intro e he
    obtain ⟨testcase, -, rfl⟩ := List.mem_map.1 he
    dsimp only
    split
    · norm_num
    · norm_num
  have hresult : FullyEvaluated boundedScoreType boundedResult := by
    have hones := @fullyEvaluated_resultWith boundedScoreType ℚ
      (fun codename => if codename = "000" then 0 else 1)
    exact ⟨hones.evaluated, hones.outcomes, hones.testcases⟩
  obtain ⟨-, ⟨-, hscore⟩, ⟨-, hpublic, -⟩, -, -, hsum, -⟩ := scores_within_maxima
    (eq_ok_of_toOption (Option.some_get _).symm : ScoreTypeGroup.create (fun _ => .error .typeError)
      .groupMul boundedParameters [("000", false), ("001", true)] 1 = .ok boundedScoreType)
    hnonneg hresult (by decide +kernel) hunit
    (eq_ok_of_toOption (Option.some_get _).symm : boundedScoreType.computeScore
      (fun _ => .error .typeError) boundedResult = .ok boundedDetails)
  exact ⟨hscore, hpublic, hsum⟩

end Grading
end ContestManagement
