import ContestManagement.Grading.GateProgress
import ContestManagement.Service.SweepQueries

/-!
# The sweep and the path of a single submission

The queries of the sweep find, for each submission and each dataset to judge, what
`submission_get_operations` yields there, as long as no gate is in use.  They differ in one thing
only: on a task without an active dataset the comparison with its id is null, and the queries do
not give the operations the priority of a dataset that is not active.
-/

namespace ContestManagement
namespace Service
namespace Sweeper

open Lib Grading

namespace ResultRow

/-- `submission_to_compile`, of a result. -/
def toCompile (r : ResultRow) : Bool :=
  r.compilationOutcome.isNone && r.compilationTries < maxCompilationTries

/-- `submission_to_evaluate`, of a result. -/
def toEvaluate (r : ResultRow) : Bool :=
  r.compilationOutcome = some .ok && !r.evaluated && r.evaluationTries < maxEvaluationTries

theorem not_toCompile_of_toEvaluate {r : ResultRow} (h : r.toEvaluate = true) :
    r.toCompile = false := by
  simp only [toEvaluate, Bool.and_eq_true, decide_eq_true_eq] at h
  simp [toCompile, h.1.1]

end ResultRow

/-- The operations of a submission on a dataset; `low` says whether the dataset counts as one that
is not active. -/
def pairOperations (low : Bool) (r : Option ResultRow) (s : SubmissionRow) (d : DatasetRow)
    (missing : List String) : List (ESOperation × Nat × ℤ) :=
  match r with
  | none =>
      [(⟨.compilation, s.id, d.id, none, false⟩, if low then 4 else 1, s.timestamp)]
  | some r =>
      if r.toCompile then
        [(⟨.compilation, s.id, d.id, none, false⟩,
          if low then 4 else if r.compilationTries = 0 then 1 else 2, s.timestamp)]
      else if r.toEvaluate then
        missing.map fun codename =>
          (⟨.evaluation, s.id, d.id, some codename, false⟩,
            if low then 4 else if r.evaluationTries = 0 then 2 else 3, s.timestamp)
      else []

/-- An operation is due for a submission on a dataset. -/
def Due (r : Option ResultRow) (missing : List String) : Prop :=
  match r with
  | none => True
  | some r => r.toCompile = true ∨ r.toEvaluate = true ∧ missing ≠ []

section

variable {low : Bool} {r : Option ResultRow} {s : SubmissionRow} {d : DatasetRow}
  {missing : List String}

theorem pairOperations_ne_nil_iff : pairOperations low r s d missing ≠ [] ↔ Due r missing := by
  cases r with
  | none => simp [pairOperations, Due]
  | some r =>
      by_cases hcompile : r.toCompile = true
      · simp [pairOperations, Due, hcompile]
      · by_cases hevaluate : r.toEvaluate = true
        · simp [pairOperations, Due, hcompile, hevaluate]
        · simp [pairOperations, Due, hcompile, hevaluate]

/-- An operation tells its submission, its dataset and whether the dataset counted as active. -/
theorem of_mem_pairOperations {x : ESOperation × Nat × ℤ} (h : x ∈ pairOperations low r s d missing) :
    x.1.objectId = s.id ∧ x.1.datasetId = d.id ∧ (x.2.1 = 4 ↔ low = true) := by
  cases r with
  | none =>
      rw [pairOperations, List.mem_singleton] at h
      subst h
      cases low <;> simp
  | some r =>
      unfold pairOperations at h
      dsimp only at h
      split at h
      · rw [List.mem_singleton] at h
        subst h
        refine ⟨rfl, rfl, ?_⟩
        cases low with
        | true => simp
        | false =>
            simp only [Bool.false_eq_true, if_false, iff_false]
            split <;> decide
      · split at h
        · obtain ⟨codename, -, rfl⟩ := List.mem_map.1 h
          refine ⟨rfl, rfl, ?_⟩
          cases low with
          | true => simp
          | false =>
              simp only [Bool.false_eq_true, if_false, iff_false]
              split <;> decide
        · cases h

end

namespace Database

variable {db : Database} {s : SubmissionRow} {t : TaskRow} {d : DatasetRow} {r : ResultRow}

/-! ## Keys -/

theorem submission_ext (h : s ∈ db.submissions) {s' : SubmissionRow} (h' : s' ∈ db.submissions)
    (hid : s.id = s'.id) : s = s' :=
  List.inj_on_of_nodup_map db.submissions_distinct h h' hid

theorem task_ext (h : t ∈ db.tasks) {t' : TaskRow} (h' : t' ∈ db.tasks) (hid : t.id = t'.id) :
    t = t' :=
  List.inj_on_of_nodup_map db.tasks_distinct h h' hid

theorem dataset_ext (h : d ∈ db.datasets) {d' : DatasetRow} (h' : d' ∈ db.datasets)
    (hid : d.id = d'.id) : d = d' :=
  List.inj_on_of_nodup_map db.datasets_distinct h h' hid

theorem testcase_ext {tc tc' : TestcaseRow} (h : tc ∈ db.testcases) (h' : tc' ∈ db.testcases)
    (hid : tc.id = tc'.id) : tc = tc' :=
  List.inj_on_of_nodup_map db.testcases_distinct h h' hid

theorem testcase_ext_codename {tc tc' : TestcaseRow} (h : tc ∈ db.testcases)
    (h' : tc' ∈ db.testcases) (hdataset : tc.datasetId = tc'.datasetId)
    (hcodename : tc.codename = tc'.codename) : tc = tc' :=
  List.inj_on_of_nodup_map db.codenames_distinct h h' (Prod.ext hdataset hcodename)

theorem getResult_eq_some_iff :
    db.getResult s d = some r ↔ r ∈ db.results ∧ r.submissionId = s.id ∧ r.datasetId = d.id := by
  have hkey : r.key = (s.id, d.id) ↔ r.submissionId = s.id ∧ r.datasetId = d.id := by
    rw [ResultRow.key, Prod.mk.injEq]
  rw [← hkey]
  exact find?_key_eq_some_iff db.results_distinct

theorem getResult_eq_none_iff :
    db.getResult s d = none ↔ ∀ r ∈ db.results, ¬(r.submissionId = s.id ∧ r.datasetId = d.id) := by
  rw [getResult, List.find?_eq_none]
  refine forall₂_congr fun r _ => ?_
  rw [decide_eq_true_eq, ResultRow.key, Prod.mk.injEq]

/-- A result is on a dataset of the task of its submission. -/
theorem result_task (hs : s ∈ db.submissions) (hd : d ∈ db.datasets) (hr : r ∈ db.results)
    (hsubmission : r.submissionId = s.id) (hdataset : r.datasetId = d.id) :
    d.taskId = s.taskId := by
  obtain ⟨s', hs', d', hd', hsid, hdid, htask⟩ := db.result_owner r hr
  rw [← submission_ext hs' hs (hsid.trans hsubmission),
    ← dataset_ext hd' hd (hdid.trans hdataset)]
  exact htask

/-! ## Missing evaluations -/

/-- Whether there is an evaluation of a submission on a testcase of a dataset. -/
def isEvaluated (db : Database) (s : SubmissionRow) (d : DatasetRow) (tc : TestcaseRow) : Bool :=
  db.evaluations.any fun e => e.key = (s.id, d.id, tc.id)

/-- The codenames of the testcases without an evaluation. -/
def missing (db : Database) (s : SubmissionRow) (d : DatasetRow) : List String :=
  ((db.testcasesOf d).filter fun tc => !db.isEvaluated s d tc).map TestcaseRow.codename

theorem mem_testcasesOf {tc : TestcaseRow} :
    tc ∈ db.testcasesOf d ↔ tc ∈ db.testcases ∧ tc.datasetId = d.id := by
  simp [testcasesOf]

theorem isEvaluated_iff {tc : TestcaseRow} : db.isEvaluated s d tc = true ↔
    ∃ e ∈ db.evaluations, e.submissionId = s.id ∧ e.datasetId = d.id ∧ e.testcaseId = tc.id := by
  simp [isEvaluated, EvaluationRow.key]

/-- A testcase has an outcome when there is an evaluation of it. -/
theorem outcomeOf_isNone_iff (hsubmission : r.submissionId = s.id) (hdataset : r.datasetId = d.id)
    {tc : TestcaseRow} (htc : tc ∈ db.testcasesOf d) :
    (outcomeOf (db.evaluationsOf r) tc.codename).isNone = !db.isEvaluated s d tc := by
  rw [Bool.eq_iff_iff, Bool.not_eq_true', ← Bool.not_eq_true, isEvaluated_iff,
    Option.isNone_iff_eq_none, outcomeOf, Option.map_eq_none_iff, List.find?_eq_none]
  obtain ⟨hmem, hof⟩ := mem_testcasesOf.1 htc
  constructor
  · rintro hnone ⟨e, he, hes, hed, het⟩
    have hfind : (db.testcases.find? fun other => other.id = e.testcaseId) = some tc :=
      (find?_key_eq_some_iff db.testcases_distinct).2 ⟨hmem, het.symm⟩
    refine hnone ⟨tc.codename, e.outcome, e.text, e.executionTime, e.executionMemory⟩ ?_ (by simp)
    rw [evaluationsOf, List.mem_filterMap]
    refine ⟨e, ?_, by rw [hfind]; rfl⟩
    simp [he, hes, hed, hsubmission, hdataset]
  · intro hno e he hcodename
    rw [decide_eq_true_eq] at hcodename
    rw [evaluationsOf, List.mem_filterMap] at he
    obtain ⟨row, hrow, hsome⟩ := he
    obtain ⟨other, hfound, rfl⟩ := Option.map_eq_some_iff.1 hsome
    obtain ⟨hevaluation, hkeys⟩ := List.mem_filter.1 hrow
    rw [Bool.and_eq_true, decide_eq_true_eq, decide_eq_true_eq, hsubmission, hdataset] at hkeys
    have hotherMem := List.mem_of_find?_eq_some hfound
    have hotherId : other.id = row.testcaseId := by simpa using List.find?_some hfound
    -- The testcase of the evaluation is one of the dataset, with the same codename.
    obtain ⟨tc', htc', hid', hdataset'⟩ := db.evaluation_testcase row hevaluation
    rw [testcase_ext htc' hotherMem (hid'.trans hotherId.symm)] at hdataset'
    have hsame : other = tc :=
      testcase_ext_codename hotherMem hmem (hdataset'.trans (hkeys.2.trans hof.symm)) hcodename
    exact hno ⟨row, hevaluation, hkeys.1, hkeys.2, by rw [← hotherId, hsame]⟩

/-! ## The path of a single submission -/

section Plain

variable {compile : String → Except PyError (String → Bool)}

theorem gate_eq_none (hplain : declaresDependencies d.scoreTypeParameters = false) :
    (db.dataset t d).gate compile = none := by
  rw [Dataset.gate, dataset, hplain]
  rfl

theorem codenames_dataset : (db.dataset t d).codenames =
    (db.testcasesOf d).map TestcaseRow.codename := by
  rw [Dataset.codenames, dataset, List.map_map]
  rfl

/-- The testcases without an outcome are those without an evaluation. -/
theorem filter_isNone_eq_missing (hsubmission : r.submissionId = s.id)
    (hdataset : r.datasetId = d.id) :
    ((db.dataset t d).codenames.filter fun codename =>
      (outcomeOf (db.evaluationsOf r) codename).isNone) = db.missing s d := by
  rw [codenames_dataset, List.filter_map, missing]
  congr 1
  exact List.filter_congr fun tc htc => outcomeOf_isNone_iff hsubmission hdataset htc

theorem testcasesToEvaluate_eq (hplain : declaresDependencies d.scoreTypeParameters = false)
    (hsubmission : r.submissionId = s.id) (hdataset : r.datasetId = d.id) :
    testcasesToEvaluate compile false (db.dataset t d) (db.evaluationsOf r) = db.missing s d := by
  rw [← filter_isNone_eq_missing hsubmission hdataset, testcasesToEvaluate]
  refine List.filter_congr fun codename _ => ?_
  simp [heldByDependencies, heldByScreening, gate_eq_none hplain]

/-- What the path of a single submission yields on a dataset. -/
theorem singlePath_eq (hplain : declaresDependencies d.scoreTypeParameters = false) :
    submissionGetOperations compile false (db.dataset t d) ((db.getResult s d).map db.result)
        (submission s) false =
      pairOperations (!decide (t.activeDatasetId = some d.id)) (db.getResult s d) s d
        (db.missing s d) := by
  cases hresult : db.getResult s d with
  | none => rfl
  | some r =>
      obtain ⟨-, hsubmission, hdataset⟩ := getResult_eq_some_iff.1 hresult
      rw [Option.map_some, pairOperations]
      by_cases hcompile : r.toCompile = true
      · have hcompile' : submissionToCompile (some (db.result r)) = true := hcompile
        rw [submissionGetOperations, if_pos hcompile', if_pos hcompile]
        rfl
      · have hcompile' : submissionToCompile (some (db.result r)) = false := by
          rw [← Bool.not_eq_true]
          exact hcompile
        rw [if_neg hcompile]
        by_cases hevaluate : r.toEvaluate = true
        · have hevaluate' : submissionToEvaluate (some (db.result r)) = true := hevaluate
          rw [submissionGetOperations, hcompile', if_pos hevaluate,
            ← @testcasesToEvaluate_eq db s t d r compile hplain hsubmission hdataset,
            if_neg Bool.false_ne_true]
          exact if_pos hevaluate'
        · have hevaluate' : ¬submissionToEvaluate (some (db.result r)) = true := hevaluate
          rw [submissionGetOperations, hcompile', if_neg hevaluate, if_neg Bool.false_ne_true]
          exact if_neg hevaluate'

/-- When the path of a single submission finalizes a result. -/
theorem finalized_iff (hplain : declaresDependencies d.scoreTypeParameters = false)
    (hresult : db.getResult s d = some r) :
    (submissionEnqueueOperations compile false (db.dataset t d) (db.result r) (submission s)
        false).1 = .finalized ↔ r.toEvaluate = true ∧ db.missing s d = [] := by
  obtain ⟨-, hsubmission, hdataset⟩ := getResult_eq_some_iff.1 hresult
  have hoperations := @singlePath_eq db s t d compile hplain
  rw [hresult, Option.map_some] at hoperations
  have hadvanced : advanceBoth compile false (db.dataset t d) (db.result r).evaluations =
      (db.result r).evaluations := by
    rw [advanceBoth, advanceDependencies, gate_eq_none hplain]
    rfl
  have hmissing : missingTestcases (db.dataset t d) (db.result r).evaluations = [] ↔
      db.missing s d = [] := by
    rw [← @filter_isNone_eq_missing db s t d r hsubmission hdataset, List.filter_eq_nil_iff,
      missingTestcases_eq_nil_iff]
    refine forall₂_congr fun codename _ => ?_
    rw [Option.isNone_iff_eq_none]
    rfl
  have hsame : ({ db.result r with
      evaluations := (db.result r).evaluations } : SubmissionResult) = db.result r := rfl
  rw [submissionEnqueueOperations, hoperations, hadvanced, hsame]
  by_cases hdue : Due (some r) (db.missing s d)
  · -- There are operations, so nothing is finalized.
    rw [if_pos (pairOperations_ne_nil_iff.2 hdue)]
    constructor
    · intro hfinal
      cases hfinal
    · rintro ⟨hevaluate, hnone⟩
      rcases hdue with hcompile | ⟨-, hsome⟩
      · rw [ResultRow.not_toCompile_of_toEvaluate hevaluate] at hcompile
        cases hcompile
      · exact absurd hnone hsome
  · rw [if_neg (mt pairOperations_ne_nil_iff.1 hdue)]
    by_cases hevaluate : r.toEvaluate = true
    · have hevaluate' : submissionToEvaluate (some (db.result r)) = true := hevaluate
      have hnone : db.missing s d = [] := by
        by_contra hsome
        exact hdue (Or.inr ⟨hevaluate, hsome⟩)
      rw [if_pos hevaluate', if_neg (not_not.2 (hmissing.2 hnone))]
      exact ⟨fun _ => ⟨hevaluate, hnone⟩, fun _ => rfl⟩
    · have hevaluate' : ¬submissionToEvaluate (some (db.result r)) = true := hevaluate
      rw [if_neg hevaluate']
      constructor
      · intro hfinal
        cases hfinal
      · rintro ⟨h, -⟩
        exact absurd h hevaluate

end Plain

/-! ## The queries -/

/-- A submission, its task and a dataset to judge of the task, in a contest. -/
structure Judged (db : Database) (contestId : Option Nat) (s : SubmissionRow) (t : TaskRow)
    (d : DatasetRow) : Prop where
  submission : s ∈ db.submissions
  task : t ∈ db.tasks
  dataset : d ∈ db.datasets
  submission_task : s.taskId = t.id
  dataset_task : d.taskId = t.id
  contest : (contestFilter contestId t).holds = true
  judge : (filterDatasetsToJudge t d).holds = true

variable {contestId : Option Nat}

theorem filterResultsToCompile_holds : (filterResultsToCompile r).holds = r.toCompile := by
  rw [filterResultsToCompile, Tri.holds_and, Tri.not, Tri.holds_some, Tri.holds_some,
    ResultRow.toCompile]
  cases r.compilationOutcome <;> rfl

theorem filterResultsToEvaluate_holds : (filterResultsToEvaluate r).holds = r.toEvaluate := by
  have houtcome : (Tri.eq r.compilationOutcome (some .ok)).holds =
      decide (r.compilationOutcome = some .ok) := by
    cases r.compilationOutcome with
    | none => rfl
    | some outcome => simp [Tri.eq]
  rw [filterResultsToEvaluate, Tri.holds_and, Tri.holds_and, houtcome, Tri.not, Tri.holds_some,
    Tri.holds_some, ResultRow.toEvaluate]

/-- The priority that a query gives. -/
def queryPriority (t : TaskRow) (d : DatasetRow) (priority : Nat) : Nat :=
  if (notActive t d).holds then 4 else priority

theorem mem_withoutResult {found : Option ResultRow} :
    (((s, t), d), found) ∈ db.withoutResult contestId ↔
      db.Judged contestId s t d ∧ db.getResult s d = none ∧ found = none := by
  unfold withoutResult
  rw [List.mem_filter]
  simp only [Tri.holds_and, Tri.holds_some, Bool.and_eq_true, Option.isNone_iff_eq_none]
  constructor
  · rintro ⟨hjoined, ⟨hcontest, hjudge⟩, rfl⟩
    obtain ⟨hpairs, hnone⟩ := mem_leftOuterJoin_none.1 hjoined
    simp only [mem_innerJoin, decide_eq_true_eq] at hpairs
    obtain ⟨⟨hs, ht, hst⟩, hd, hdt⟩ := hpairs
    refine ⟨⟨hs, ht, hd, hst, hdt, hcontest, hjudge⟩, ?_, rfl⟩
    rw [getResult_eq_none_iff]
    rintro r hr ⟨hsubmission, hdataset⟩
    have hnot := hnone r hr
    simp [hsubmission, hdataset] at hnot
  · rintro ⟨h, hnone, rfl⟩
    refine ⟨?_, ⟨h.contest, h.judge⟩, rfl⟩
    rw [mem_leftOuterJoin_none]
    constructor
    · simp only [mem_innerJoin, decide_eq_true_eq]
      exact ⟨⟨h.submission, h.task, h.submission_task⟩, h.dataset, h.dataset_task⟩
    · intro r hr
      have hnot := getResult_eq_none_iff.1 hnone r hr
      rw [← Bool.not_eq_true, Bool.and_eq_true, decide_eq_true_eq, decide_eq_true_eq]
      exact fun heq => hnot ⟨heq.2.symm, heq.1.symm⟩

theorem mem_withResult : (((s, t), r), d) ∈ db.withResult contestId ↔
    db.Judged contestId s t d ∧ db.getResult s d = some r ∧ r.toCompile = true := by
  unfold withResult
  rw [List.mem_filter]
  simp only [Tri.holds_and, filterResultsToCompile_holds, Bool.and_eq_true, mem_innerJoin,
    decide_eq_true_eq]
  constructor
  · rintro ⟨⟨⟨⟨hs, ht, hst⟩, hr, hsr⟩, hd, hrd⟩, ⟨hcontest, hjudge⟩, hcompile⟩
    have htask := result_task hs hd hr hsr.symm hrd
    exact ⟨⟨hs, ht, hd, hst, htask.trans hst, hcontest, hjudge⟩,
      getResult_eq_some_iff.2 ⟨hr, hsr.symm, hrd⟩, hcompile⟩
  · rintro ⟨h, hresult, hcompile⟩
    obtain ⟨hr, hsubmission, hdataset⟩ := getResult_eq_some_iff.1 hresult
    exact ⟨⟨⟨⟨h.submission, h.task, h.submission_task⟩, hr, hsubmission.symm⟩, h.dataset,
      hdataset⟩, ⟨h.contest, h.judge⟩, hcompile⟩

theorem mem_joinedResults : (((r, d), s), t) ∈ db.joinedResults ↔
    r ∈ db.results ∧ d ∈ db.datasets ∧ s ∈ db.submissions ∧ t ∈ db.tasks ∧
      r.submissionId = s.id ∧ r.datasetId = d.id ∧ s.taskId = t.id := by
  simp only [joinedResults, mem_innerJoin, decide_eq_true_eq]
  constructor
  · rintro ⟨⟨⟨hr, hd, hrd⟩, hs, hrs⟩, ht, hst⟩
    exact ⟨hr, hd, hs, ht, hrs, hrd, hst⟩
  · rintro ⟨hr, hd, hs, ht, hrs, hrd, hst⟩
    exact ⟨⟨⟨hr, hd, hrd⟩, hs, hrs⟩, ht, hst⟩

theorem mem_unevaluated {tc : TestcaseRow} {found : Option EvaluationRow} :
    (((((r, d), s), t), tc), found) ∈ db.unevaluated contestId ↔
      db.Judged contestId s t d ∧ db.getResult s d = some r ∧ r.toEvaluate = true ∧
        tc ∈ db.testcasesOf d ∧ db.isEvaluated s d tc = false ∧ found = none := by
  unfold unevaluated
  rw [List.mem_filter, ← Bool.not_eq_true, isEvaluated_iff]
  simp only [Tri.holds_and, Tri.holds_some, filterResultsToEvaluate_holds, Bool.and_eq_true,
    Option.isNone_iff_eq_none]
  constructor
  · rintro ⟨hjoined, ⟨⟨hcontest, hjudge⟩, hevaluate⟩, rfl⟩
    obtain ⟨hpairs, hnone⟩ := mem_leftOuterJoin_none.1 hjoined
    rw [mem_innerJoin, mem_joinedResults, decide_eq_true_eq] at hpairs
    obtain ⟨⟨hr, hd, hs, ht, hrs, hrd, hst⟩, htc, htcd⟩ := hpairs
    have htask := result_task hs hd hr hrs hrd
    refine ⟨⟨hs, ht, hd, hst, htask.trans hst, hcontest, hjudge⟩,
      getResult_eq_some_iff.2 ⟨hr, hrs, hrd⟩, hevaluate, mem_testcasesOf.2 ⟨htc, htcd⟩, ?_, rfl⟩
    rintro ⟨e, he, hes, hed, het⟩
    have hnot := hnone e he
    simp [hes, hed, het] at hnot
  · rintro ⟨h, hresult, hevaluate, hof, hnone, rfl⟩
    obtain ⟨hr, hsubmission, hdataset⟩ := getResult_eq_some_iff.1 hresult
    obtain ⟨htc, htcd⟩ := mem_testcasesOf.1 hof
    refine ⟨?_, ⟨⟨h.contest, h.judge⟩, hevaluate⟩, rfl⟩
    rw [mem_leftOuterJoin_none]
    constructor
    · rw [mem_innerJoin, mem_joinedResults, decide_eq_true_eq]
      exact ⟨⟨hr, h.dataset, h.submission, h.task, hsubmission, hdataset, h.submission_task⟩,
        htc, htcd⟩
    · intro e he
      rw [← Bool.not_eq_true, Bool.and_eq_true, Bool.and_eq_true, decide_eq_true_eq,
        decide_eq_true_eq, decide_eq_true_eq]
      exact fun heq => hnone ⟨e, he, heq.1.1, heq.1.2, heq.2⟩

theorem mem_toCompileWithoutResult {row : Nat × Nat × Nat × ℤ} :
    row ∈ db.toCompileWithoutResult contestId ↔ ∃ s t d, db.Judged contestId s t d ∧
      db.getResult s d = none ∧ row = (s.id, d.id, queryPriority t d 1, s.timestamp) := by
  rw [toCompileWithoutResult, List.mem_map]
  constructor
  · rintro ⟨⟨⟨⟨s, t⟩, d⟩, found⟩, hrow, rfl⟩
    obtain ⟨h, hresult, -⟩ := mem_withoutResult.1 hrow
    exact ⟨s, t, d, h, hresult, rfl⟩
  · rintro ⟨s, t, d, h, hresult, rfl⟩
    exact ⟨(((s, t), d), none), mem_withoutResult.2 ⟨h, hresult, rfl⟩, rfl⟩

theorem mem_toCompileWithResult {row : Nat × Nat × Nat × ℤ} :
    row ∈ db.toCompileWithResult contestId ↔ ∃ s t d r, db.Judged contestId s t d ∧
      db.getResult s d = some r ∧ r.toCompile = true ∧
      row = (s.id, d.id, queryPriority t d (if r.compilationTries = 0 then 1 else 2),
        s.timestamp) := by
  rw [toCompileWithResult, List.mem_map]
  constructor
  · rintro ⟨⟨⟨⟨s, t⟩, r⟩, d⟩, hrow, rfl⟩
    obtain ⟨h, hresult, hcompile⟩ := mem_withResult.1 hrow
    refine ⟨s, t, d, r, h, hresult, hcompile, ?_⟩
    simp [caseWhen, queryPriority]
  · rintro ⟨s, t, d, r, h, hresult, hcompile, rfl⟩
    refine ⟨(((s, t), r), d), mem_withResult.2 ⟨h, hresult, hcompile⟩, ?_⟩
    simp [caseWhen, queryPriority]

theorem mem_toEvaluate {row : Nat × Nat × Nat × ℤ × String} :
    row ∈ db.toEvaluate contestId ↔ ∃ s t d r, db.Judged contestId s t d ∧
      db.getResult s d = some r ∧ r.toEvaluate = true ∧ ∃ codename ∈ db.missing s d,
      row = (s.id, d.id, queryPriority t d (if r.evaluationTries = 0 then 2 else 3), s.timestamp,
        codename) := by
  rw [toEvaluate, List.mem_map]
  constructor
  · rintro ⟨⟨⟨⟨⟨⟨r, d⟩, s⟩, t⟩, tc⟩, found⟩, hrow, rfl⟩
    obtain ⟨h, hresult, hevaluate, htc, hnone, -⟩ := mem_unevaluated.1 hrow
    refine ⟨s, t, d, r, h, hresult, hevaluate, tc.codename, ?_, ?_⟩
    · exact List.mem_map.2 ⟨tc, List.mem_filter.2 ⟨htc, by rw [hnone]; rfl⟩, rfl⟩
    · simp [caseWhen, queryPriority]
  · rintro ⟨s, t, d, r, h, hresult, hevaluate, codename, hmissing, rfl⟩
    obtain ⟨tc, htc, rfl⟩ := List.mem_map.1 hmissing
    obtain ⟨hof, hnone⟩ := List.mem_filter.1 htc
    rw [Bool.not_eq_true'] at hnone
    refine ⟨(((((r, d), s), t), tc), none),
      mem_unevaluated.2 ⟨h, hresult, hevaluate, hof, hnone, rfl⟩, ?_⟩
    simp [caseWhen, queryPriority]

/-- What the sweep finds, submission by submission. -/
theorem mem_getSubmissionsOperations {x : ESOperation × Nat × ℤ} :
    x ∈ db.getSubmissionsOperations contestId ↔ ∃ s t d, db.Judged contestId s t d ∧
      x ∈ pairOperations (notActive t d).holds (db.getResult s d) s d (db.missing s d) := by
  rw [getSubmissionsOperations, List.mem_append, List.map_append, List.mem_append, List.mem_map,
    List.mem_map, List.mem_map]
  constructor
  · rintro ((⟨row, hrow, rfl⟩ | ⟨row, hrow, rfl⟩) | ⟨row, hrow, rfl⟩)
    · obtain ⟨s, t, d, h, hresult, rfl⟩ := mem_toCompileWithoutResult.1 hrow
      refine ⟨s, t, d, h, ?_⟩
      rw [hresult, pairOperations]
      exact List.mem_singleton_self _
    · obtain ⟨s, t, d, r, h, hresult, hcompile, rfl⟩ := mem_toCompileWithResult.1 hrow
      refine ⟨s, t, d, h, ?_⟩
      rw [hresult, pairOperations, if_pos hcompile]
      exact List.mem_singleton_self _
    · obtain ⟨s, t, d, r, h, hresult, hevaluate, codename, hmissing, rfl⟩ := mem_toEvaluate.1 hrow
      refine ⟨s, t, d, h, ?_⟩
      have hcompile : ¬r.toCompile = true := by
        rw [ResultRow.not_toCompile_of_toEvaluate hevaluate]
        exact Bool.false_ne_true
      rw [hresult, pairOperations, if_neg hcompile, if_pos hevaluate]
      exact List.mem_map.2 ⟨codename, hmissing, rfl⟩
  · rintro ⟨s, t, d, h, hx⟩
    cases hresult : db.getResult s d with
    | none =>
        rw [hresult, pairOperations, List.mem_singleton] at hx
        subst hx
        exact Or.inl (Or.inl ⟨_, mem_toCompileWithoutResult.2 ⟨s, t, d, h, hresult, rfl⟩, rfl⟩)
    | some r =>
        rw [hresult, pairOperations] at hx
        by_cases hcompile : r.toCompile = true
        · rw [if_pos hcompile, List.mem_singleton] at hx
          subst hx
          exact Or.inl (Or.inr
            ⟨_, mem_toCompileWithResult.2 ⟨s, t, d, r, h, hresult, hcompile, rfl⟩, rfl⟩)
        · rw [if_neg hcompile] at hx
          by_cases hevaluate : r.toEvaluate = true
          · rw [if_pos hevaluate] at hx
            obtain ⟨codename, hmissing, rfl⟩ := List.mem_map.1 hx
            exact Or.inr ⟨_, mem_toEvaluate.2
              ⟨s, t, d, r, h, hresult, hevaluate, codename, hmissing, rfl⟩, rfl⟩
          · rw [if_neg hevaluate] at hx
            cases hx

/-! ## What the objects give -/

theorem contestFilter_holds : (contestFilter contestId t).holds =
    match contestId with
    | none => true
    | some id => decide (t.contestId = some id) := by
  cases contestId with
  | none => rfl
  | some id =>
      rw [contestFilter]
      cases t.contestId with
      | none => rfl
      | some other => simp [Tri.eq]

theorem mem_submissionsOf : (s, t) ∈ db.submissionsOf contestId ↔
    s ∈ db.submissions ∧ t ∈ db.tasks ∧ s.taskId = t.id ∧
      (contestFilter contestId t).holds = true := by
  unfold submissionsOf
  rw [List.mem_flatMap]
  have htask : ∀ s : SubmissionRow, (db.tasks.find? fun t => t.id = s.taskId) = some t ↔
      t ∈ db.tasks ∧ t.id = s.taskId := fun s => find?_key_eq_some_iff db.tasks_distinct
  constructor
  · rintro ⟨s', hs, hmem⟩
    obtain ⟨t', ht, heq⟩ := List.mem_map.1 hmem
    obtain ⟨rfl, rfl⟩ := Prod.mk.inj heq
    obtain ⟨hfind, hcontest⟩ := List.mem_filter.1 ht
    rw [Option.mem_toList, htask] at hfind
    refine ⟨hs, hfind.1, hfind.2.symm, ?_⟩
    rw [contestFilter_holds]
    exact hcontest
  · rintro ⟨hs, ht, hst, hcontest⟩
    rw [contestFilter_holds] at hcontest
    refine ⟨s, hs, List.mem_map.2 ⟨t, List.mem_filter.2 ⟨?_, hcontest⟩, rfl⟩⟩
    rw [Option.mem_toList, htask]
    exact ⟨ht, hst.symm⟩

theorem filterDatasetsToJudge_holds : (filterDatasetsToJudge t d).holds = true ↔
    t.activeDatasetId = some d.id ∨ d.autojudge = true := by
  rw [filterDatasetsToJudge, Tri.holds_or, Tri.holds_some, Bool.or_eq_true, Tri.holds_eq_some]

/-- The objects are joined as the tables are. -/
theorem judged_iff : db.Judged contestId s t d ↔
    (s, t) ∈ db.submissionsOf contestId ∧ d ∈ db.getDatasetsToJudge t := by
  rw [mem_submissionsOf, getDatasetsToJudge, List.mem_filter, List.mem_filter, decide_eq_true_eq,
    Bool.or_eq_true, decide_eq_true_eq]
  constructor
  · intro h
    exact ⟨⟨h.submission, h.task, h.submission_task, h.contest⟩, ⟨h.dataset, h.dataset_task⟩,
      filterDatasetsToJudge_holds.1 h.judge⟩
  · rintro ⟨⟨hs, ht, hst, hcontest⟩, ⟨hd, hdt⟩, hjudge⟩
    exact ⟨hs, ht, hd, hst, hdt, hcontest, filterDatasetsToJudge_holds.2 hjudge⟩

/-- The gates are not in use. -/
def Plain (db : Database) : Prop :=
  ∀ d ∈ db.datasets, declaresDependencies d.scoreTypeParameters = false

section Objects

variable {compile : String → Except PyError (String → Bool)}

theorem mem_submissionOperations (hplain : db.Plain) {x : ESOperation × Nat × ℤ} :
    x ∈ db.submissionOperations compile false contestId ↔ ∃ s t d, db.Judged contestId s t d ∧
      x ∈ pairOperations (!decide (t.activeDatasetId = some d.id)) (db.getResult s d) s d
        (db.missing s d) := by
  unfold submissionOperations
  simp only [List.mem_flatMap, Prod.exists]
  constructor
  · rintro ⟨s, t, hst, d, hd, hx⟩
    have hjudged := judged_iff.2 ⟨hst, hd⟩
    rw [singlePath_eq (hplain d hjudged.dataset)] at hx
    exact ⟨s, t, d, hjudged, hx⟩
  · rintro ⟨s, t, d, hjudged, hx⟩
    obtain ⟨hst, hd⟩ := judged_iff.1 hjudged
    rw [← @singlePath_eq db s t d compile (hplain d hjudged.dataset)] at hx
    exact ⟨s, t, hst, d, hd, hx⟩

theorem mem_finalizedResults (hplain : db.Plain) :
    r ∈ db.finalizedResults compile false contestId ↔ ∃ s t d, db.Judged contestId s t d ∧
      db.getResult s d = some r ∧ r.toEvaluate = true ∧ db.missing s d = [] := by
  unfold finalizedResults
  simp only [List.mem_flatMap, Prod.exists, List.mem_filter, Option.mem_toList,
    decide_eq_true_eq]
  constructor
  · rintro ⟨s, t, hst, d, hd, hresult, hfinal⟩
    have hjudged := judged_iff.2 ⟨hst, hd⟩
    exact ⟨s, t, d, hjudged, hresult,
      (finalized_iff (hplain d hjudged.dataset) hresult).1 hfinal⟩
  · rintro ⟨s, t, d, hjudged, hresult, hfinal⟩
    obtain ⟨hst, hd⟩ := judged_iff.1 hjudged
    exact ⟨s, t, hst, d, hd, hresult,
      (finalized_iff (hplain d hjudged.dataset) hresult).2 hfinal⟩

end Objects

/-! ## The results to finalize -/

/-- A result has as many evaluations as its dataset has testcases when none is missing. -/
theorem counts_eq_iff (hsubmission : r.submissionId = s.id) (hdataset : r.datasetId = d.id) :
    (db.evaluations.filter fun e =>
        e.submissionId = r.submissionId && e.datasetId = r.datasetId).length =
      (db.testcases.filter fun tc => tc.datasetId = r.datasetId).length ↔
      db.missing s d = [] := by
  rw [hsubmission, hdataset]
  have hevaluated : ∀ id : Nat,
      id ∈ (db.evaluations.filter fun e => e.submissionId = s.id && e.datasetId = d.id).map
        EvaluationRow.testcaseId ↔
      ∃ e ∈ db.evaluations, e.submissionId = s.id ∧ e.datasetId = d.id ∧ e.testcaseId = id := by
    intro id
    simp only [List.mem_map, List.mem_filter, Bool.and_eq_true, decide_eq_true_eq, and_assoc]
  generalize hE : db.evaluations.filter (fun e => e.submissionId = s.id && e.datasetId = d.id) = E
    at hevaluated ⊢
  have hT : (db.testcases.filter fun tc => tc.datasetId = d.id) = db.testcasesOf d := rfl
  rw [hT]
  have hnodupT : ((db.testcasesOf d).map TestcaseRow.id).Nodup :=
    db.testcases_distinct.sublist (List.Sublist.map _ List.filter_sublist)
  have hnodupE : (E.map EvaluationRow.testcaseId).Nodup := by
    have hkeys : (E.map EvaluationRow.key).Nodup :=
      db.evaluations_distinct.sublist (hE ▸ List.Sublist.map _ List.filter_sublist)
    have heq : E.map EvaluationRow.key =
        (E.map EvaluationRow.testcaseId).map fun id => (s.id, d.id, id) := by
      rw [List.map_map]
      refine List.map_congr_left fun e he => ?_
      rw [← hE, List.mem_filter, Bool.and_eq_true, decide_eq_true_eq, decide_eq_true_eq] at he
      rw [EvaluationRow.key, he.2.1, he.2.2]
      rfl
    rw [heq] at hkeys
    exact hkeys.of_map _
  have hsub : E.map EvaluationRow.testcaseId ⊆ (db.testcasesOf d).map TestcaseRow.id := by
    intro id hid
    obtain ⟨e, he, -, hed, rfl⟩ := (hevaluated id).1 hid
    obtain ⟨tc, htc, hid', hdataset'⟩ := db.evaluation_testcase e he
    exact List.mem_map.2 ⟨tc, mem_testcasesOf.2 ⟨htc, hdataset'.trans hed⟩, hid'⟩
  have hmissing : db.missing s d = [] ↔
      (db.testcasesOf d).map TestcaseRow.id ⊆ E.map EvaluationRow.testcaseId := by
    rw [missing, List.map_eq_nil_iff, List.filter_eq_nil_iff]
    constructor
    · intro hnone id hid
      obtain ⟨tc, htc, rfl⟩ := List.mem_map.1 hid
      rw [hevaluated, ← isEvaluated_iff]
      simpa using hnone tc htc
    · intro hall tc htc
      have hid := hall (List.mem_map.2 ⟨tc, htc, rfl⟩)
      rw [hevaluated, ← isEvaluated_iff] at hid
      simp [hid]
  rw [hmissing]
  have hle := (hnodupE.subperm hsub).length_le
  rw [List.length_map, List.length_map] at hle
  constructor
  · intro hlength
    have hperm := (hnodupE.subperm hsub).perm_of_length_le
      (by rw [List.length_map, List.length_map]; exact hlength.ge)
    exact hperm.symm.subset
  · intro hsub'
    have hge := (hnodupT.subperm hsub').length_le
    rw [List.length_map, List.length_map] at hge
    exact le_antisymm hle hge

theorem mem_getSubmissionResultsToFinalize :
    r ∈ db.getSubmissionResultsToFinalize contestId ↔ ∃ s t d, db.Judged contestId s t d ∧
      db.getResult s d = some r ∧ r.toEvaluate = true ∧ db.missing s d = [] := by
  unfold getSubmissionResultsToFinalize
  rw [List.mem_map]
  constructor
  · rintro ⟨⟨⟨⟨r, d⟩, s⟩, t⟩, hrow, rfl⟩
    obtain ⟨hjoined, hfilter⟩ := List.mem_filter.1 hrow
    simp only [Tri.holds_and, Tri.holds_some, filterResultsToEvaluate_holds, Bool.and_eq_true,
      decide_eq_true_eq] at hfilter
    obtain ⟨⟨⟨hcontest, hjudge⟩, hevaluate⟩, hcounts⟩ := hfilter
    obtain ⟨hr, hd, hs, ht, hrs, hrd, hst⟩ := mem_joinedResults.1 hjoined
    have htask := result_task hs hd hr hrs hrd
    exact ⟨s, t, d, ⟨hs, ht, hd, hst, htask.trans hst, hcontest, hjudge⟩,
      getResult_eq_some_iff.2 ⟨hr, hrs, hrd⟩, hevaluate, (counts_eq_iff hrs hrd).1 hcounts⟩
  · rintro ⟨s, t, d, h, hresult, hevaluate, hnone⟩
    obtain ⟨hr, hrs, hrd⟩ := getResult_eq_some_iff.1 hresult
    refine ⟨(((r, d), s), t), List.mem_filter.2 ⟨?_, ?_⟩, rfl⟩
    · exact mem_joinedResults.2 ⟨hr, h.dataset, h.submission, h.task, hrs, hrd, h.submission_task⟩
    · simp only [Tri.holds_and, Tri.holds_some, filterResultsToEvaluate_holds, h.contest, h.judge,
        hevaluate, Bool.and_eq_true, decide_eq_true_eq]
      exact ⟨⟨⟨trivial, trivial⟩, trivial⟩, (counts_eq_iff hrs hrd).2 hnone⟩

/-! ## No duplicates -/

theorem Judged.ext {s' : SubmissionRow} {t' : TaskRow} {d' : DatasetRow}
    (h : db.Judged contestId s t d) (h' : db.Judged contestId s' t' d') (hs : s.id = s'.id)
    (hd : d.id = d'.id) : s = s' ∧ t = t' ∧ d = d' := by
  have hsame := submission_ext h.submission h'.submission hs
  refine ⟨hsame, ?_, dataset_ext h.dataset h'.dataset hd⟩
  refine task_ext h.task h'.task ?_
  rw [← h.submission_task, ← h'.submission_task, hsame]

theorem nodup_toCompileWithoutResult : (db.toCompileWithoutResult contestId).Nodup := by
  have hrows : (db.withoutResult contestId).Nodup :=
    (nodup_leftOuterJoin (nodup_innerJoin (nodup_innerJoin (db.submissions_distinct.of_map _)
      (db.tasks_distinct.of_map _)) (db.datasets_distinct.of_map _))
      (db.results_distinct.of_map _)).filter _
  refine (List.nodup_map_iff_inj_on hrows).2 ?_
  rintro ⟨⟨⟨s, t⟩, d⟩, found⟩ hrow ⟨⟨⟨s', t'⟩, d'⟩, found'⟩ hrow' heq
  obtain ⟨h, -, rfl⟩ := mem_withoutResult.1 hrow
  obtain ⟨h', -, rfl⟩ := mem_withoutResult.1 hrow'
  obtain ⟨rfl, rfl, rfl⟩ := h.ext h' (Prod.mk.inj heq).1 (Prod.mk.inj (Prod.mk.inj heq).2).1
  rfl

theorem nodup_toCompileWithResult : (db.toCompileWithResult contestId).Nodup := by
  have hrows : (db.withResult contestId).Nodup :=
    (nodup_innerJoin (nodup_innerJoin (nodup_innerJoin (db.submissions_distinct.of_map _)
      (db.tasks_distinct.of_map _)) (db.results_distinct.of_map _))
      (db.datasets_distinct.of_map _)).filter _
  refine (List.nodup_map_iff_inj_on hrows).2 ?_
  rintro ⟨⟨⟨s, t⟩, r⟩, d⟩ hrow ⟨⟨⟨s', t'⟩, r'⟩, d'⟩ hrow' heq
  obtain ⟨h, hresult, -⟩ := mem_withResult.1 hrow
  obtain ⟨h', hresult', -⟩ := mem_withResult.1 hrow'
  obtain ⟨rfl, rfl, rfl⟩ := h.ext h' (Prod.mk.inj heq).1 (Prod.mk.inj (Prod.mk.inj heq).2).1
  rw [hresult, Option.some.injEq] at hresult'
  rw [hresult']

theorem nodup_toEvaluate : (db.toEvaluate contestId).Nodup := by
  have hrows : (db.unevaluated contestId).Nodup :=
    (nodup_leftOuterJoin (nodup_innerJoin (nodup_innerJoin (nodup_innerJoin (nodup_innerJoin
      (db.results_distinct.of_map _) (db.datasets_distinct.of_map _))
      (db.submissions_distinct.of_map _)) (db.tasks_distinct.of_map _))
      (db.testcases_distinct.of_map _)) (db.evaluations_distinct.of_map _)).filter _
  refine (List.nodup_map_iff_inj_on hrows).2 ?_
  rintro ⟨⟨⟨⟨⟨r, d⟩, s⟩, t⟩, tc⟩, found⟩ hrow ⟨⟨⟨⟨⟨r', d'⟩, s'⟩, t'⟩, tc'⟩, found'⟩ hrow' heq
  obtain ⟨h, hresult, -, htc, -, rfl⟩ := mem_unevaluated.1 hrow
  obtain ⟨h', hresult', -, htc', -, rfl⟩ := mem_unevaluated.1 hrow'
  simp only [Prod.mk.injEq] at heq
  obtain ⟨hs, hd, -, -, hcodename⟩ := heq
  obtain ⟨rfl, rfl, rfl⟩ := h.ext h' hs hd
  rw [hresult, Option.some.injEq] at hresult'
  obtain ⟨hmem, hof⟩ := mem_testcasesOf.1 htc
  obtain ⟨hmem', hof'⟩ := mem_testcasesOf.1 htc'
  rw [hresult', testcase_ext_codename hmem hmem' (hof.trans hof'.symm) hcodename]

/-- The sweep finds every operation once. -/
theorem nodup_getSubmissionsOperations : (db.getSubmissionsOperations contestId).Nodup := by
  rw [getSubmissionsOperations, List.nodup_append']
  refine ⟨?_, ?_, ?_⟩
  · refine List.Nodup.map (fun row row' heq => ?_) ?_
    · simp only [Prod.mk.injEq, ESOperation.mk.injEq] at heq
      obtain ⟨⟨-, hs, hd, -⟩, hpriority, htimestamp⟩ := heq
      exact Prod.ext hs (Prod.ext hd (Prod.ext hpriority htimestamp))
    · rw [List.nodup_append']
      refine ⟨nodup_toCompileWithoutResult, nodup_toCompileWithResult, ?_⟩
      rw [List.disjoint_left]
      intro row hrow hrow'
      obtain ⟨s, t, d, h, hnone, rfl⟩ := mem_toCompileWithoutResult.1 hrow
      obtain ⟨s', t', d', r, h', hsome, -, heq⟩ := mem_toCompileWithResult.1 hrow'
      obtain ⟨rfl, rfl, rfl⟩ := h.ext h' (Prod.mk.inj heq).1 (Prod.mk.inj (Prod.mk.inj heq).2).1
      rw [hnone] at hsome
      cases hsome
  · refine List.Nodup.map (fun row row' heq => ?_) nodup_toEvaluate
    simp only [Prod.mk.injEq, ESOperation.mk.injEq, Option.some.injEq] at heq
    obtain ⟨⟨-, hs, hd, hcodename, -⟩, hpriority, htimestamp⟩ := heq
    exact Prod.ext hs (Prod.ext hd (Prod.ext hpriority (Prod.ext htimestamp hcodename)))
  · rw [List.disjoint_left]
    intro x hx hx'
    obtain ⟨row, -, rfl⟩ := List.mem_map.1 hx
    obtain ⟨row', -, heq⟩ := List.mem_map.1 hx'
    cases congrArg (fun y => y.1.type) heq

/-! ## The comparison -/

/-- No operation is due on a dataset of a task that has no active dataset. -/
def ActiveWhereDue (db : Database) (contestId : Option Nat) : Prop :=
  ∀ s t d, db.Judged contestId s t d → Due (db.getResult s d) (db.missing s d) →
    t.activeDatasetId ≠ none

/-- With an active dataset both paths agree on which datasets are not active. -/
theorem notActive_holds {id : Nat} (hactive : t.activeDatasetId = some id) :
    (notActive t d).holds = !decide (t.activeDatasetId = some d.id) := by
  rw [Bool.eq_iff_iff, notActive, Tri.holds_ne_some, hactive]
  simp

end Database

/-- Where no gate is in use, the sweep finds what the single submissions yield, once each, and the
results that they would finalize, exactly when no operation is due on a task without an active
dataset. -/
theorem sweep_equals_single_path (db : Database)
    (compile : String → Except PyError (String → Bool)) (contestId : Option Nat)
    (hplain : db.Plain) :
    ((∀ x, x ∈ db.getSubmissionsOperations contestId ↔
        x ∈ db.submissionOperations compile false contestId) ∧
      (db.getSubmissionsOperations contestId).Nodup ∧
      ∀ r, r ∈ db.getSubmissionResultsToFinalize contestId ↔
        r ∈ db.finalizedResults compile false contestId) ↔
      db.ActiveWhereDue contestId := by
  constructor
  · rintro ⟨hsame, -, -⟩ s t d hjudged hdue hnone
    -- What is due has the lowest priority on one path and another one in the queries.
    obtain ⟨x, hx⟩ := List.exists_mem_of_ne_nil _
      ((@pairOperations_ne_nil_iff (!decide (t.activeDatasetId = some d.id)) _ s d _).2 hdue)
    have hlow : x.2.1 = 4 := (of_mem_pairOperations hx).2.2.2 (by simp [hnone])
    have hsweep := (hsame x).2 ((Database.mem_submissionOperations hplain).2 ⟨s, t, d, hjudged, hx⟩)
    obtain ⟨s', t', d', hjudged', hx'⟩ := Database.mem_getSubmissionsOperations.1 hsweep
    obtain ⟨hs, hd, -⟩ := of_mem_pairOperations hx
    obtain ⟨hs', hd', hpriority⟩ := of_mem_pairOperations hx'
    obtain ⟨rfl, rfl, rfl⟩ := hjudged.ext hjudged' (hs.symm.trans hs') (hd.symm.trans hd')
    have hactive := hpriority.1 hlow
    rw [Database.notActive, Tri.holds_ne_some] at hactive
    obtain ⟨id, hid, -⟩ := hactive
    rw [hnone] at hid
    cases hid
  · intro hactive
    refine ⟨fun x => ?_, Database.nodup_getSubmissionsOperations, fun r => ?_⟩
    · rw [Database.mem_getSubmissionsOperations, Database.mem_submissionOperations hplain]
      refine exists_congr fun s => exists_congr fun t => exists_congr fun d => ?_
      refine and_congr_right fun hjudged => ?_
      by_cases hdue : Due (db.getResult s d) (db.missing s d)
      · obtain ⟨id, hid⟩ := Option.ne_none_iff_exists'.1 (hactive s t d hjudged hdue)
        rw [Database.notActive_holds hid]
      · have hnil : ∀ low, pairOperations low (db.getResult s d) s d (db.missing s d) = [] := by
          intro low
          by_contra hne
          exact hdue (pairOperations_ne_nil_iff.1 hne)
        rw [hnil, hnil]
    · rw [Database.mem_getSubmissionResultsToFinalize, Database.mem_finalizedResults hplain]

/-! ### A small database -/

/-- One task with one dataset, which may be the active one; the first submission has no result yet,
the second one an evaluation on the first of two testcases. -/
def smallDatabase (activeDatasetId : Option Nat) : Database where
  tasks := [⟨1, some 1, activeDatasetId, 0⟩]
  datasets := [⟨1, 1, true, none, .int 50, none⟩]
  testcases := [⟨1, 1, "000", true⟩, ⟨2, 1, "001", true⟩]
  submissions := [⟨1, 1, 100⟩, ⟨2, 1, 200⟩]
  results := [⟨2, 1, some .ok, 1, false, 0⟩]
  evaluations := [⟨2, 1, 1, 1, [], none, none⟩]
  tasks_distinct := by simp
  datasets_distinct := by simp
  testcases_distinct := by simp
  codenames_distinct := by simp
  submissions_distinct := by simp
  results_distinct := by simp
  evaluations_distinct := by simp
  dataset_task := by simp
  submission_task := by simp
  result_owner := by simp
  evaluation_testcase := by simp

theorem smallDatabase_plain (activeDatasetId : Option Nat) :
    (smallDatabase activeDatasetId).Plain := by
  intro d hd
  rw [smallDatabase, List.mem_singleton] at hd
  subst hd
  rfl

theorem sweep_equals_single_path_small :
    (smallDatabase (some 1)).getSubmissionsOperations none =
        [(⟨.compilation, 1, 1, none, false⟩, 1, 100),
          (⟨.evaluation, 2, 1, some "001", false⟩, 2, 200)] ∧
      ∀ x, x ∈ (smallDatabase (some 1)).getSubmissionsOperations none ↔
        x ∈ (smallDatabase (some 1)).submissionOperations (fun _ => .error .typeError) false
          none := by
  refine ⟨by decide +kernel, ?_⟩
  refine ((sweep_equals_single_path _ _ _ (smallDatabase_plain _)).2 ?_).1
  intro s t d hjudged _
  have ht := hjudged.task
  rw [smallDatabase, List.mem_singleton] at ht
  subst ht
  exact Option.some_ne_none 1

/-- Without an active dataset the sweep gives a compilation the highest priority, and the path of
the submission the lowest one. -/
theorem no_active_dataset_priorities_differ :
    (smallDatabase none).Plain ∧
      (⟨.compilation, 1, 1, none, false⟩, 1, 100) ∈
        (smallDatabase none).getSubmissionsOperations none ∧
      (⟨.compilation, 1, 1, none, false⟩, 1, 100) ∉
        (smallDatabase none).submissionOperations (fun _ => .error .typeError) false none ∧
      (⟨.compilation, 1, 1, none, false⟩, 4, 100) ∈
        (smallDatabase none).submissionOperations (fun _ => .error .typeError) false none :=
  ⟨smallDatabase_plain none, by decide +kernel, by decide +kernel, by decide +kernel⟩

end Sweeper
end Service
end ContestManagement
