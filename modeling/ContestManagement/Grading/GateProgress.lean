import ContestManagement.Grading.GateInvariant

/-!
# Gated evaluation does not get stuck

The two gates wait for each other's evidence only as long as some testcase is still
to be evaluated.  A skip does not change any status: the dependency gate skips what
only blocked subtasks contain, and two-phase grading skips testcases of subtasks
that have failed already.  So after both advances the first subtask that still waits
has all its dependencies passed, and a testcase that can be released.
-/

namespace ContestManagement
namespace Grading

open Lib

/-! ### Evaluations that are added -/

theorem outcomeOf_append {F : Type} (evaluations more : List (Evaluation F)) (codename : String) :
    outcomeOf (evaluations ++ more) codename =
      (outcomeOf evaluations codename).or (outcomeOf more codename) := by
  rw [outcomeOf, outcomeOf, outcomeOf, List.find?_append]
  cases evaluations.find? fun e => e.codename = codename with
  | none => simp
  | some e => simp

/-- Testcases that are not among the added ones keep their outcome. -/
theorem outcomeOf_append_of_forall_ne {F : Type} {evaluations more : List (Evaluation F)}
    {codename : String} (h : ∀ e ∈ more, e.codename ≠ codename) :
    outcomeOf (evaluations ++ more) codename = outcomeOf evaluations codename := by
  have hnone : outcomeOf more codename = none := by
    rw [outcomeOf, Option.map_eq_none_iff, List.find?_eq_none]
    intro e he
    simpa using h e he
  rw [outcomeOf_append, hnone, Option.or_none]

theorem outcomeOf_ne_none {evaluations : List Evaluation} {e : Evaluation} (h : e ∈ evaluations) :
    outcomeOf evaluations e.codename ≠ none := by
  rw [outcomeOf, ne_eq, Option.map_eq_none_iff, List.find?_eq_none]
  intro hall
  exact hall e h (by simp)

/-- The screening only looks at the screening testcases. -/
theorem groupScreeningStatus_congr {codenames : List String} {outcomes outcomes' : String → Option ℚ}
    (h : ∀ z ∈ codenames, isScreening z = true → outcomes z = outcomes' z) (group : String) :
    groupScreeningStatus codenames outcomes group =
      groupScreeningStatus codenames outcomes' group := by
  have hdone : (screeningOf codenames group).filterMap outcomes =
      (screeningOf codenames group).filterMap outcomes' := by
    refine List.filterMap_congr ?_
    intro z hz
    obtain ⟨hmem, hscreening⟩ := List.mem_filter.1 hz
    rw [decide_eq_true_eq] at hscreening
    exact h z hmem hscreening.1
  simp only [groupScreeningStatus, hdone]

variable {setup : GradingSetup} {st : ScoreTypeGroup} {targets : List (List String)}
  {g : SubtaskGate} {evaluations : List Evaluation}

/-! ### A skip changes no status -/

/-- The statuses stay when the unblocked subtasks stay failed, or keep their
outcomes. -/
theorem SubtaskGate.Built.statuses_congr (hbuilt : g.Built) {outcomes outcomes' : String → Option ℚ}
    (h : ∀ index < g.targets.length, (g.statuses outcomes index).2 = none →
      g.done outcomes' index = g.done outcomes index ∨
      g.ownFailed (g.done outcomes index) index = true ∧
        g.ownFailed (g.done outcomes' index) index = true) :
    g.statuses outcomes' = g.statuses outcomes := by
  have hall : ∀ index < g.targets.length,
      g.statuses outcomes' index = g.statuses outcomes index := by
    refine hbuilt.induction ?_
    intro index hindex ih
    have hrule := hbuilt.statuses_eq outcomes hindex
    rw [hbuilt.statuses_eq outcomes' hindex, hrule]
    have hfailed : (g.dependenciesOf index).filter
          (fun number => (g.statuses outcomes' number).1 = .failed) =
        (g.dependenciesOf index).filter
          fun number => (g.statuses outcomes number).1 = .failed := by
      refine List.filter_congr ?_
      intro number hnumber
      rw [ih number hnumber]
    have hpassed : (∀ number ∈ g.dependenciesOf index, (g.statuses outcomes' number).1 = .passed) ↔
        ∀ number ∈ g.dependenciesOf index, (g.statuses outcomes number).1 = .passed := by
      constructor
      · intro hnew number hnumber
        rw [← ih number hnumber]
        exact hnew number hnumber
      · intro hold number hnumber
        rw [ih number hnumber]
        exact hold number hnumber
    simp only [statusRule, hfailed] at hrule ⊢
    split
    · rfl
    · rename_i hnone
      rw [hnone] at hrule
      dsimp only at hrule
      have hunblocked : (g.statuses outcomes index).2 = none := by
        rw [hrule]
        split
        · rfl
        · split
          · rfl
          · rfl
      rcases h index hindex hunblocked with hdone | ⟨hown, hown'⟩
      · rw [hdone]
        simp only [hpassed]
      · rw [if_pos hown, if_pos hown']
  funext index
  by_cases hindex : index < g.targets.length
  · exact hall index hindex
  · have hnot : index ∉ g.order := fun hmem => hindex ((hbuilt.mem_order index).1 hmem)
    rw [SubtaskGate.statuses, SubtaskGate.statuses, sweep_of_not_mem _ _ hnot,
      sweep_of_not_mem _ _ hnot]

section Skips

variable {F : Type} [OfNat F 0] [OfNat F 1] [Mul F] [LT F] [DecidableLT F] [LE F] [DecidableLE F]
  [Fractions F] {setup : GradingSetup F} {evaluations : List (Evaluation F)}

/-- The testcases that the dependency gate skips now. -/
def dependencySkips (dataset : Dataset) (g : SubtaskGate) (evaluations : List (Evaluation F)) :
    List (Evaluation F) :=
  (dataset.codenames.filter fun codename => (outcomeOf evaluations codename).isNone).filterMap
    fun codename => (g.skippable (g.statuses (outcomeOf evaluations)) codename).map
      fun dependency =>
        skippedEvaluation codename [skippedDependencyMessage, toString dependency]

theorem advanceDependencies_eq (hgate : setup.dataset.gate setup.compile = some g) :
    advanceDependencies setup.compile setup.dataset evaluations =
      evaluations ++ dependencySkips setup.dataset g evaluations := by
  rw [advanceDependencies, hgate]
  rfl

theorem mem_dependencySkips {dataset : Dataset} {e : Evaluation F}
    (h : e ∈ dependencySkips dataset g evaluations) :
    e.skippedByDependency = true ∧
      g.skippable (g.statuses (outcomeOf evaluations)) e.codename ≠ none := by
  obtain ⟨codename, -, hskip⟩ := List.mem_filterMap.1 h
  obtain ⟨number, hnumber, rfl⟩ := Option.map_eq_some_iff.1 hskip
  refine ⟨by simp [Evaluation.skippedByDependency, skippedEvaluation], ?_⟩
  show g.skippable _ codename ≠ none
  rw [hnumber]
  exact Option.some_ne_none number

end Skips

/-- Skipping what only blocked subtasks contain changes no status. -/
theorem statuses_advanceDependencies (hgraded : Graded setup st targets)
    (hgate : setup.dataset.gate setup.compile = some g) (evaluations : List Evaluation) :
    g.statuses (outcomeOf (advanceDependencies setup.compile setup.dataset evaluations)) =
      g.statuses (outcomeOf evaluations) := by
  obtain ⟨hbuilt, -, -⟩ := hgraded.gate hgate
  rw [advanceDependencies_eq hgate]
  refine hbuilt.statuses_congr ?_
  intro index hindex hunblocked
  left
  refine List.filterMap_congr ?_
  intro codename hcodename
  refine outcomeOf_append_of_forall_ne ?_
  rintro e he rfl
  refine (mem_dependencySkips he).2 (SubtaskGate.skippable_eq_none_iff.2 (.inr ⟨index, ?_, hunblocked⟩))
  exact SubtaskGate.mem_subtasksOf.2 ⟨hindex, hcodename⟩

/-- The screening testcase behind a two-phase skip has no points in the evaluations
so far. -/
theorem AllExplained.outcome_of_screening_failed (h : AllExplained setup st targets evaluations)
    {z : String} (hscreening : isScreening z = true) {q : ℚ}
    (hq : outcomesForScreening evaluations z = some q) (hle : q ≤ 0) :
    outcomeOf evaluations z = some 0 := by
  obtain ⟨found, hfound, rfl, rfl⟩ := exists_of_outcomeOf hq
  obtain ⟨hfound, hmark⟩ := List.mem_filter.1 hfound
  have hzero := h.real_zero hfound hscreening (by simpa using hmark) hle
  obtain ⟨q', hq'⟩ := Option.ne_none_iff_exists'.1 (outcomeOf_ne_none hfound)
  obtain ⟨marked, hexplained⟩ := h.outcome hq'
  rw [hq']
  cases hexplained with
  | real same => rw [same, hzero]
  | screened zero => rw [zero]
  | skipped zero => rw [zero]

/-- Skipping testcases of subtasks that have failed changes no status. -/
theorem AllExplained.statuses_advanceTwoPhase (h : AllExplained setup st targets evaluations)
    (hgraded : Graded setup st targets) (htwoPhase : setup.twoPhase = true)
    (hgate : setup.dataset.gate setup.compile = some g) :
    g.statuses (outcomeOf (Grading.advanceTwoPhase setup.dataset evaluations)) =
      g.statuses (outcomeOf evaluations) := by
  obtain ⟨hbuilt, hst, htargets⟩ := hgraded.gate hgate
  refine hbuilt.statuses_congr ?_
  intro index hindex _
  by_cases hskip : ∃ e ∈ screeningSkips setup.dataset evaluations, e.codename ∈ g.target index
  · right
    obtain ⟨e, he, hcontains⟩ := hskip
    obtain ⟨hmem, hplain, z, hz, hscreening, hgroup, q, hq, hle⟩ := mem_screeningSkips he
    have hzero := h.outcome_of_screening_failed hscreening hq hle
    have htarget : g.target index ∈ targets := by
      rw [← htargets]
      simp [SubtaskGate.target, hindex]
    have hztarget : z ∈ g.target index :=
      hgraded.aligned htwoPhase _ htarget e.codename hcontains hmem hplain z hz hscreening hgroup
    have hzero' : outcomeOf (Grading.advanceTwoPhase setup.dataset evaluations) z = some 0 := by
      rw [advanceTwoPhase_eq, outcomeOf_append, hzero, Option.some_or]
    have hfatal := fatal_zero hbuilt hst hindex
    exact ⟨(ownFailed_iff hbuilt hst hindex (h.done_nonneg index)).2
        ⟨0, List.mem_filterMap.2 ⟨z, hztarget, hzero⟩, hfatal⟩,
      (ownFailed_iff hbuilt hst hindex ((h.advanceTwoPhase hgraded htwoPhase).done_nonneg index)).2
        ⟨0, List.mem_filterMap.2 ⟨z, hztarget, hzero'⟩, hfatal⟩⟩
  · left
    refine List.filterMap_congr ?_
    intro codename hcodename
    refine outcomeOf_append_of_forall_ne ?_
    rintro e he rfl
    exact hskip ⟨e, he, hcodename⟩

/-! ### A skip changes no screening -/

theorem outcomesForScreening_advanceTwoPhase (dataset : Dataset) (evaluations : List Evaluation)
    {z : String} (hz : isScreening z = true) :
    outcomesForScreening (advanceTwoPhase dataset evaluations) z =
      outcomesForScreening evaluations z := by
  rw [outcomesForScreening, advanceTwoPhase_eq, List.filter_append]
  refine outcomeOf_append_of_forall_ne ?_
  rintro e he rfl
  have hplain := (mem_screeningSkips (List.mem_filter.1 he).1).2.1
  rw [hz] at hplain
  cases hplain

theorem outcomesForScreening_advanceDependencies (setup : GradingSetup)
    (evaluations : List Evaluation) :
    outcomesForScreening (advanceDependencies setup.compile setup.dataset evaluations) =
      outcomesForScreening evaluations := by
  cases hgate : setup.dataset.gate setup.compile with
  | none => rw [advanceDependencies, hgate]
  | some g =>
      have hnone : (dependencySkips setup.dataset g evaluations).filter
          (fun e => !e.skippedByDependency) = [] := by
        rw [List.filter_eq_nil_iff]
        intro e he
        simp [(mem_dependencySkips he).1]
      rw [advanceDependencies_eq hgate, outcomesForScreening, List.filter_append, hnone,
        List.append_nil]
      rfl

/-! ### Nothing left to skip -/

/-- Neither gate has anything more to skip. -/
structure Stalled (setup : GradingSetup) (evaluations : List Evaluation) : Prop where
  screening : setup.twoPhase = true → ∀ c ∈ setup.dataset.codenames,
    outcomeOf evaluations c = none → isScreening c = false →
      groupScreeningStatus setup.dataset.codenames (outcomesForScreening evaluations)
        (groupOf c) ≠ some .failed
  dependencies : ∀ g, setup.dataset.gate setup.compile = some g → ∀ c ∈ setup.dataset.codenames,
    outcomeOf evaluations c = none → g.skippable (g.statuses (outcomeOf evaluations)) c = none

theorem outcomeOf_of_advanceDependencies {c : String}
    (h : outcomeOf (advanceDependencies setup.compile setup.dataset evaluations) c = none) :
    outcomeOf evaluations c = none := by
  cases hgate : setup.dataset.gate setup.compile with
  | none => rwa [advanceDependencies, hgate] at h
  | some g =>
      rw [advanceDependencies_eq hgate, outcomeOf_append, Option.or_eq_none_iff] at h
      exact h.1

theorem outcomeOf_of_advanceTwoPhase {dataset : Dataset} {c : String}
    (h : outcomeOf (advanceTwoPhase dataset evaluations) c = none) :
    outcomeOf evaluations c = none := by
  rw [advanceTwoPhase_eq, outcomeOf_append, Option.or_eq_none_iff] at h
  exact h.1

/-- What the dependency gate could skip, it has skipped. -/
theorem not_skippable_of_advanceDependencies (hgate : setup.dataset.gate setup.compile = some g)
    {c : String} (hmem : c ∈ setup.dataset.codenames)
    (h : outcomeOf (advanceDependencies setup.compile setup.dataset evaluations) c = none) :
    g.skippable (g.statuses (outcomeOf evaluations)) c = none := by
  by_contra hskip
  obtain ⟨number, hnumber⟩ := Option.ne_none_iff_exists'.1 hskip
  have hskipped : skippedEvaluation c [skippedDependencyMessage, toString number] ∈
      advanceDependencies setup.compile setup.dataset evaluations := by
    rw [advanceDependencies_eq hgate]
    refine List.mem_append_right _ (List.mem_filterMap.2 ⟨c, List.mem_filter.2 ⟨hmem, ?_⟩, ?_⟩)
    · rw [outcomeOf_of_advanceDependencies h]
      rfl
    · rw [hnumber, Option.map_some]
  exact outcomeOf_ne_none hskipped h

/-- What two-phase grading could skip, it has skipped. -/
theorem not_failed_of_advanceTwoPhase {dataset : Dataset} {c : String}
    (hmem : c ∈ dataset.codenames) (hplain : isScreening c = false)
    (h : outcomeOf (advanceTwoPhase dataset evaluations) c = none) :
    groupScreeningStatus dataset.codenames (outcomesForScreening evaluations) (groupOf c) ≠
      some .failed := by
  intro hfailed
  have hskipped : skippedEvaluation c [skippedMessage] ∈ advanceTwoPhase dataset evaluations := by
    refine List.mem_append_right _ (List.mem_map.2 ⟨c, List.mem_filter.2 ⟨hmem, ?_⟩, rfl⟩)
    simp [outcomeOf_of_advanceTwoPhase h, hplain, hfailed]
  exact outcomeOf_ne_none hskipped h

/-- Two-phase grading first, then the dependencies. -/
theorem stalled_advanceBoth (hgraded : Graded setup st targets) :
    Stalled setup (advanceBoth setup.compile setup.twoPhase setup.dataset evaluations) := by
  constructor
  · intro htwoPhase c hmem hnone hplain
    rw [advanceBoth, htwoPhase, if_pos rfl] at hnone ⊢
    rw [outcomesForScreening_advanceDependencies,
      groupScreeningStatus_congr fun z _ hz =>
        outcomesForScreening_advanceTwoPhase setup.dataset evaluations hz]
    exact not_failed_of_advanceTwoPhase hmem hplain (outcomeOf_of_advanceDependencies hnone)
  · intro g hgate c hmem hnone
    rw [advanceBoth] at hnone ⊢
    rw [statuses_advanceDependencies hgraded hgate]
    exact not_skippable_of_advanceDependencies hgate hmem hnone

/-- The dependencies first, then two-phase grading. -/
theorem stalled_advanceTwoPhase_advanceDependencies
    (h : AllExplained setup st targets evaluations) (hgraded : Graded setup st targets)
    (htwoPhase : setup.twoPhase = true) :
    Stalled setup (advanceTwoPhase setup.dataset
      (advanceDependencies setup.compile setup.dataset evaluations)) := by
  constructor
  · intro _ c hmem hnone hplain
    rw [groupScreeningStatus_congr fun z _ hz => outcomesForScreening_advanceTwoPhase _ _ hz]
    exact not_failed_of_advanceTwoPhase hmem hplain hnone
  · intro g hgate c hmem hnone
    rw [(h.advanceDependencies hgraded).statuses_advanceTwoPhase hgraded htwoPhase hgate,
      statuses_advanceDependencies hgraded hgate]
    exact not_skippable_of_advanceDependencies hgate hmem (outcomeOf_of_advanceTwoPhase hnone)

/-! ### Something can be released -/

theorem mem_testcasesToEvaluate {F : Type} [OfNat F 0] [OfNat F 1] [Mul F] [LT F] [DecidableLT F]
    [LE F] [DecidableLE F] [Fractions F] {setup : GradingSetup F} {evaluations : List (Evaluation F)} {c : String} :
    c ∈ testcasesToEvaluate setup.compile setup.twoPhase setup.dataset evaluations ↔
      c ∈ setup.dataset.codenames ∧ outcomeOf evaluations c = none ∧
        heldByDependencies setup.compile setup.dataset evaluations c = false ∧
        heldByScreening setup.twoPhase setup.dataset evaluations c = false := by
  simp only [testcasesToEvaluate, List.mem_filter, Bool.and_eq_true, Bool.not_eq_true',
    Option.isNone_iff_eq_none, and_assoc]

/-- All the dependencies of the subtask have passed, if there is a gate. -/
def Open (setup : GradingSetup) (evaluations : List Evaluation) (index : Nat) : Prop :=
  ∀ g, setup.dataset.gate setup.compile = some g → ∀ number ∈ g.dependenciesOf index,
    (g.statuses (outcomeOf evaluations) number).1 = .passed

/-- The dependency gate does not hold the testcases of an open subtask. -/
theorem Open.not_held {index : Nat} (h : Open setup evaluations index)
    (hgraded : Graded setup st targets) (hindex : index < targets.length) {c : String}
    (hc : c ∈ targets.getD index []) :
    heldByDependencies setup.compile setup.dataset evaluations c = false := by
  rw [heldByDependencies]
  cases hgate : setup.dataset.gate setup.compile with
  | none => rfl
  | some g =>
      obtain ⟨-, -, htargets⟩ := hgraded.gate hgate
      have hsubtask : index ∈ g.subtasksOf c := by
        subst htargets
        exact SubtaskGate.mem_subtasksOf.2 ⟨hindex, hc⟩
      have hreleasable : g.releasable c (g.statuses (outcomeOf evaluations)) = true := by
        rw [SubtaskGate.releasable, Bool.or_eq_true, List.any_eq_true]
        refine .inr ⟨index, hsubtask, ?_⟩
        simpa using h g hgate
      simp [hreleasable]

/-- A testcase that is left in an open subtask leads to one that can be released:
itself, or a screening testcase it waits for. -/
theorem AllExplained.released_of_open (h : AllExplained setup st targets evaluations)
    (hgraded : Graded setup st targets) (hstalled : Stalled setup evaluations) {index : Nat}
    (hindex : index < targets.length) (hopen : Open setup evaluations index) {c : String}
    (hc : c ∈ targets.getD index []) (hmem : c ∈ setup.dataset.codenames)
    (hleft : outcomeOf evaluations c = none) :
    ∃ x, x ∈ testcasesToEvaluate setup.compile setup.twoPhase setup.dataset evaluations := by
  by_cases hheld : heldByScreening setup.twoPhase setup.dataset evaluations c = false
  · exact ⟨c, mem_testcasesToEvaluate.2
      ⟨hmem, hleft, hopen.not_held hgraded hindex hc, hheld⟩⟩
  · rw [Bool.not_eq_false, heldByScreening, Bool.and_eq_true, Bool.and_eq_true,
      Bool.not_eq_true', decide_eq_true_eq] at hheld
    obtain ⟨⟨htwoPhase, hplain⟩, hstatus⟩ := hheld
    -- The screening is pending: it has not failed, or the testcase would be skipped.
    have hpending : groupScreeningStatus setup.dataset.codenames
        (outcomesForScreening evaluations) (groupOf c) = some .pending := by
      have hnot := hstalled.screening htwoPhase c hmem hleft hplain
      cases hgroup : groupScreeningStatus setup.dataset.codenames
          (outcomesForScreening evaluations) (groupOf c) with
      | none =>
          rw [hgroup] at hstatus
          exact absurd rfl hstatus
      | some status =>
          cases status with
          | pending => rfl
          | passed =>
              rw [hgroup] at hstatus
              exact absurd rfl hstatus
          | failed => exact absurd hgroup hnot
    obtain ⟨z, hz, hscreening, hgroup, hnone⟩ := exists_of_screening_pending hpending
    have htarget : targets.getD index [] ∈ targets := by simp [hindex]
    have hztarget := hgraded.aligned htwoPhase _ htarget c hc hmem hplain z hz hscreening hgroup
    have hzleft : outcomeOf evaluations z = none := by
      by_contra hevaluated
      obtain ⟨q, hq⟩ := Option.ne_none_iff_exists'.1 hevaluated
      obtain ⟨e, he, rfl, rfl⟩ := exists_of_outcomeOf hq
      -- The only evaluations that screening leaves out are those of blocked testcases.
      cases hmark : e.skippedByDependency with
      | false =>
          have hkept : e ∈ evaluations.filter fun e => !e.skippedByDependency :=
            List.mem_filter.2 ⟨he, by simp [hmark]⟩
          exact outcomeOf_ne_none hkept hnone
      | true =>
          cases (h e he).2 with
          | real _ unmarked =>
              rw [hmark] at unmarked
              cases unmarked
          | screened _ unmarked =>
              rw [hmark] at unmarked
              cases unmarked
          | skipped _ _ gated blocked =>
              obtain ⟨g, hgate⟩ := gated
              obtain ⟨number, hnumber, hdead⟩ := blocked index hindex hztarget
              obtain ⟨hbuilt, hst, htargets⟩ := hgraded.gate hgate
              subst hst
              have hlt : number < targets.length :=
                htargets ▸ hbuilt.dependency_lt (htargets ▸ hindex) hnumber
              exact h.not_dead_of_passed hbuilt rfl htargets number hlt
                (hopen g hgate number hnumber) hdead
    refine ⟨z, mem_testcasesToEvaluate.2
      ⟨hz, hzleft, hopen.not_held hgraded hindex hztarget, ?_⟩⟩
    simp [heldByScreening, hscreening]

/-- A testcase of a subtask that is not complete. -/
theorem exists_left_of_incomplete {outcomes : String → Option ℚ} {index : Nat}
    (h : (g.done outcomes index).length ≠ (g.target index).length) :
    ∃ c ∈ g.target index, outcomes c = none :=
  filterMap_length_lt (lt_of_le_of_ne (List.length_filterMap_le _ _) h)

/-- Only testcases of the dataset are listed by the subtasks that others depend on. -/
def DependenciesListed (setup : GradingSetup) (st : ScoreTypeGroup)
    (targets : List (List String)) : Prop :=
  ∀ index, ∀ number ∈ dependenciesOf st.dependencies index,
    ∀ c ∈ targets.getD number [], c ∈ setup.dataset.codenames

/-- A pending dependency leads to an open subtask with a testcase left. -/
theorem exists_open_of_pending (hgate : setup.dataset.gate setup.compile = some g)
    (hbuilt : g.Built) (hlisted : DependenciesListed setup g.scoreType g.targets) :
    ∀ index < g.targets.length, (g.statuses (outcomeOf evaluations) index).1 = .pending →
      (∃ dependent, index ∈ g.dependenciesOf dependent) →
      ∃ found < g.targets.length, Open setup evaluations found ∧
        ∃ c ∈ g.target found, c ∈ setup.dataset.codenames ∧ outcomeOf evaluations c = none := by
  refine hbuilt.induction ?_
  intro index hindex ih hpending hneeded
  cases hbuilt.statusCase (outcomeOf evaluations) hindex with
  | blocked least status =>
      rw [status] at hpending
      cases hpending
  | ownFailure status =>
      rw [status] at hpending
      cases hpending
  | passed status =>
      rw [status] at hpending
      cases hpending
  | pending status unblocked notFailed incomplete =>
      by_cases hpassed : ∀ number ∈ g.dependenciesOf index,
          (g.statuses (outcomeOf evaluations) number).1 = .passed
      · have hcount : (g.done (outcomeOf evaluations) index).length ≠ (g.target index).length := by
          intro hcomplete
          obtain ⟨number, hnumber, hnot⟩ := incomplete hcomplete
          exact hnot (hpassed number hnumber)
        obtain ⟨c, hc, hleft⟩ := exists_left_of_incomplete hcount
        obtain ⟨dependent, hdependent⟩ := hneeded
        refine ⟨index, hindex, ?_, c, hc, hlisted dependent index hdependent c hc, hleft⟩
        intro g' hgate' number hnumber
        rw [hgate] at hgate'
        cases hgate'
        exact hpassed number hnumber
      · simp only [not_forall] at hpassed
        obtain ⟨number, hnumber, hnot⟩ := hpassed
        refine ih number hnumber ?_ ⟨index, hnumber⟩
        cases hstatus : (g.statuses (outcomeOf evaluations) number).1 with
        | pending => rfl
        | passed => exact absurd hstatus hnot
        | failed => exact absurd hstatus (unblocked number hnumber)

/-- When both gates have nothing to skip, something can be released or everything is
evaluated. -/
theorem AllExplained.progress (h : AllExplained setup st targets evaluations)
    (hgraded : Graded setup st targets) (hstalled : Stalled setup evaluations)
    (hcovered : ∀ c ∈ setup.dataset.codenames, ∃ target ∈ targets, c ∈ target)
    (hlisted : DependenciesListed setup st targets) :
    testcasesToEvaluate setup.compile setup.twoPhase setup.dataset evaluations ≠ [] ∨
      ∀ c ∈ setup.dataset.codenames, outcomeOf evaluations c ≠ none := by
  by_cases hall : ∀ c ∈ setup.dataset.codenames, outcomeOf evaluations c ≠ none
  · exact .inr hall
  · left
    simp only [not_forall, not_not] at hall
    obtain ⟨c, hmem, hleft⟩ := hall
    obtain ⟨target, htarget, hc⟩ := hcovered c hmem
    obtain ⟨first, hfirst, rfl⟩ := List.getElem_of_mem htarget
    have hopen : ∃ index < targets.length, Open setup evaluations index ∧
        ∃ c ∈ targets.getD index [], c ∈ setup.dataset.codenames ∧
          outcomeOf evaluations c = none := by
      cases hgate : setup.dataset.gate setup.compile with
      | none =>
          refine ⟨first, hfirst, ?_, c, by simpa [hfirst] using hc, hmem, hleft⟩
          intro g hgate'
          rw [hgate] at hgate'
          cases hgate'
      | some g =>
          obtain ⟨hbuilt, rfl, htargets⟩ := hgraded.gate hgate
          subst htargets
          have hsubtask : first ∈ g.subtasksOf c := by
            refine SubtaskGate.mem_subtasksOf.2 ⟨hfirst, ?_⟩
            rw [SubtaskGate.target]
            simpa [hfirst] using hc
          -- Some subtask of the testcase is not blocked, or the gate would skip it.
          rcases SubtaskGate.skippable_eq_none_iff.1
            (hstalled.dependencies g hgate c hmem hleft) with hnil | ⟨index, hindex, hunblocked⟩
          · rw [hnil] at hsubtask
            cases hsubtask
          · obtain ⟨hlt, hcontains⟩ := SubtaskGate.mem_subtasksOf.1 hindex
            have hnotFailed : ∀ number ∈ g.dependenciesOf index,
                (g.statuses (outcomeOf evaluations) number).1 ≠ .failed := by
              cases hbuilt.statusCase (outcomeOf evaluations) hlt with
              | blocked least status =>
                  rw [status] at hunblocked
                  cases hunblocked
              | ownFailure _ unblocked => exact unblocked
              | pending _ unblocked => exact unblocked
              | passed _ _ _ dependencies =>
                  intro number hnumber
                  rw [dependencies number hnumber]
                  decide
            by_cases hpending : ∃ number ∈ g.dependenciesOf index,
                (g.statuses (outcomeOf evaluations) number).1 = .pending
            · obtain ⟨number, hnumber, hstatus⟩ := hpending
              exact exists_open_of_pending hgate hbuilt hlisted number
                (hbuilt.dependency_lt hlt hnumber) hstatus ⟨index, hnumber⟩
            · refine ⟨index, hlt, ?_, c, hcontains, hmem, hleft⟩
              intro g' hgate' number hnumber
              rw [hgate] at hgate'
              cases hgate'
              cases hstatus : (g.statuses (outcomeOf evaluations) number).1 with
              | passed => rfl
              | pending => exact absurd ⟨number, hnumber, hstatus⟩ hpending
              | failed => exact absurd hstatus (hnotFailed number hnumber)
    obtain ⟨index, hindex, hopen, x, hx, hxmem, hxleft⟩ := hopen
    obtain ⟨y, hy⟩ := h.released_of_open hgraded hstalled hindex hopen hx hxmem hxleft
    exact List.ne_nil_of_mem hy

/-! ### The runs -/

/-- The evaluations that the operations of a submission ask for. -/
theorem submissionGetOperations_eq {result : SubmissionResult}
    (htoCompile : submissionToCompile (some result) = false)
    (htoEvaluate : submissionToEvaluate (some result) = true) (archiveSandbox : Bool) :
    ∃ priority, submissionGetOperations setup.compile setup.twoPhase setup.dataset (some result)
        setup.submission archiveSandbox =
      (testcasesToEvaluate setup.compile setup.twoPhase setup.dataset result.evaluations).map
        fun codename => (⟨.evaluation, setup.submission.id, setup.dataset.id, some codename,
          archiveSandbox⟩, priority, setup.submission.timestamp) := by
  rw [submissionGetOperations, htoCompile, htoEvaluate]
  exact ⟨_, rfl⟩

theorem GradingRun.requested_eq {s : GradingRun}
    (htoCompile : submissionToCompile (some s.result) = false)
    (htoEvaluate : submissionToEvaluate (some s.result) = true) :
    s.requested setup =
      testcasesToEvaluate setup.compile setup.twoPhase setup.dataset s.result.evaluations := by
  obtain ⟨priority, hoperations⟩ := submissionGetOperations_eq htoCompile htoEvaluate false
  rw [GradingRun.requested, hoperations, List.filterMap_map]
  exact List.filterMap_some

/-- After both advances no testcase is released that was not before. -/
theorem AllExplained.testcasesToEvaluate_advanceBoth (h : AllExplained setup st targets evaluations)
    (hgraded : Graded setup st targets) {c : String}
    (hc : c ∈ testcasesToEvaluate setup.compile setup.twoPhase setup.dataset
      (advanceBoth setup.compile setup.twoPhase setup.dataset evaluations)) :
    c ∈ testcasesToEvaluate setup.compile setup.twoPhase setup.dataset evaluations := by
  obtain ⟨hmem, hleft, hdependencies, hscreening⟩ := mem_testcasesToEvaluate.1 hc
  rw [advanceBoth] at hleft hdependencies hscreening
  have hfirst := outcomeOf_of_advanceDependencies hleft
  refine mem_testcasesToEvaluate.2 ⟨hmem, ?_, ?_, ?_⟩
  · split at hfirst
    · exact outcomeOf_of_advanceTwoPhase hfirst
    · exact hfirst
  · rw [heldByDependencies] at hdependencies ⊢
    cases hgate : setup.dataset.gate setup.compile with
    | none => rfl
    | some g =>
        rw [hgate] at hdependencies
        simp only [statuses_advanceDependencies hgraded hgate] at hdependencies
        split at hdependencies
        · rename_i htwoPhase
          rw [h.statuses_advanceTwoPhase hgraded htwoPhase hgate] at hdependencies
          exact hdependencies
        · exact hdependencies
  · rw [heldByScreening, outcomesForScreening_advanceDependencies] at hscreening
    rw [heldByScreening, ← hscreening]
    split
    · rw [groupScreeningStatus_congr fun z _ hz =>
        outcomesForScreening_advanceTwoPhase setup.dataset evaluations hz]
    · rfl

theorem missingTestcases_eq_nil_iff {dataset : Dataset} :
    missingTestcases dataset evaluations = [] ↔
      ∀ c ∈ dataset.codenames, outcomeOf evaluations c ≠ none := by
  rw [List.eq_nil_iff_forall_not_mem]
  simp only [missingTestcases, mem_sortedStrings, List.mem_filter, Option.isNone_iff_eq_none,
    not_and, ne_eq]

/-- When every codename that a subtask with dependents lists is a testcase of the
dataset, gated evaluation never gets stuck: in every state that a run reaches, after
both advances in either order some evaluation is asked for or every testcase has one,
and enqueueing neither takes the fallback nor finishes with a testcase missing. -/
theorem gated_evaluation_progresses (setup : GradingSetup) (st : ScoreTypeGroup)
    (targets : List (List String)) (hgraded : Graded setup st targets)
    (hcovered : ∀ c ∈ setup.dataset.codenames, ∃ target ∈ targets, c ∈ target)
    (hlisted : DependenciesListed setup st targets)
    (s : GradingRun) (hs : (gradingMachine setup).Reachable s) :
    (∀ evaluations,
      (evaluations = advanceBoth setup.compile setup.twoPhase setup.dataset
          s.result.evaluations ∨
        setup.twoPhase = true ∧ evaluations = advanceTwoPhase setup.dataset
          (advanceDependencies setup.compile setup.dataset s.result.evaluations)) →
      (s.withEvaluations evaluations).requested setup ≠ [] ∨
        ∀ c ∈ setup.dataset.codenames, outcomeOf evaluations c ≠ none) ∧
    ∀ archiveSandbox, ∀ outcome result,
      submissionEnqueueOperations setup.compile setup.twoPhase setup.dataset s.result
        setup.submission archiveSandbox = (outcome, result) →
      (∀ operations, outcome ≠ .released operations) ∧
        (outcome = .finalized → ∀ c ∈ setup.dataset.codenames,
          outcomeOf result.evaluations c ≠ none) := by
  have hinv := GradingRun.inv_of_reachable hgraded hs
  have hboth : AllExplained setup st targets
      (advanceBoth setup.compile setup.twoPhase setup.dataset s.result.evaluations) := by
    rw [advanceBoth]
    refine AllExplained.advanceDependencies ?_ hgraded
    split
    · rename_i htwoPhase
      exact hinv.explained.advanceTwoPhase hgraded htwoPhase
    · exact hinv.explained
  have hprogress := hboth.progress hgraded (stalled_advanceBoth hgraded) hcovered hlisted
  constructor
  · intro evaluations hadvanced
    have hrequested : (s.withEvaluations evaluations).requested setup =
        testcasesToEvaluate setup.compile setup.twoPhase setup.dataset evaluations :=
      GradingRun.requested_eq hinv.toCompile hinv.toEvaluate
    rw [hrequested]
    rcases hadvanced with rfl | ⟨htwoPhase, rfl⟩
    · exact hprogress
    · exact ((hinv.explained.advanceDependencies hgraded).advanceTwoPhase hgraded
        htwoPhase).progress hgraded
        (stalled_advanceTwoPhase_advanceDependencies hinv.explained hgraded htwoPhase)
        hcovered hlisted
  · intro archiveSandbox outcome result henqueue
    obtain ⟨priority, hoperations⟩ :
        ∃ priority, submissionGetOperations setup.compile setup.twoPhase setup.dataset
          (some s.result) setup.submission archiveSandbox = _ :=
      submissionGetOperations_eq hinv.toCompile hinv.toEvaluate archiveSandbox
    rw [submissionEnqueueOperations, hoperations] at henqueue
    split at henqueue
    · cases henqueue
      constructor
      · intro operations heq
        cases heq
      · intro heq
        cases heq
    · rename_i hnone
      rw [not_not, List.map_eq_nil_iff] at hnone
      -- Nothing was asked for, so nothing is after the advances, and nothing is missing.
      have hcomplete : ∀ c ∈ setup.dataset.codenames, outcomeOf (advanceBoth setup.compile
          setup.twoPhase setup.dataset s.result.evaluations) c ≠ none := by
        rcases hprogress with hsome | hall
        · obtain ⟨c, hc⟩ := List.exists_mem_of_ne_nil _ hsome
          have hbefore := hinv.explained.testcasesToEvaluate_advanceBoth hgraded hc
          rw [hnone] at hbefore
          cases hbefore
        · exact hall
      have hmissing := missingTestcases_eq_nil_iff.2 hcomplete
      simp only [hmissing, ne_eq, not_true_eq_false, if_false] at henqueue
      split at henqueue
      · cases henqueue
        constructor
        · intro operations heq
          cases heq
        · exact fun _ => hcomplete
      · cases henqueue
        constructor
        · intro operations heq
          cases heq
        · intro heq
          cases heq

/-- Testcase `001` is in a subtask that depends on the one that lists `listed`. -/
def chainedSetup (listed : List String) : GradingSetup where
  compile := fun _ => .error .typeError
  twoPhase := false
  dataset := {
    id := 1
    active := true
    testcases := [("000", false), ("001", true)]
    distinct := by decide
    scoreType := .groupMin
    scoreTypeParameters := .list [
      .list [.int 40, .list (listed.map .str)],
      .dict [("max_score", .int 60), ("testcases", .list [.str "001"]),
        ("depends_on", .list [.int 0])]]
    scorePrecision := 0
    timeLimit := none }
  submission := ⟨1, 0⟩
  outcome := fun _ => 1

/-- The score type when only testcases are listed. -/
def chainedScoreType : ScoreTypeGroup :=
  ((chainedSetup ["000"]).dataset.scoreTypeObject
    (chainedSetup ["000"]).compile).toOption.get (by decide +kernel)

/-- The first subtask also lists a codename that is no testcase. -/
def ghostSetup : GradingSetup := chainedSetup ["000", "ghost"]

/-- Its score type, which the constructor accepts. -/
def ghostScoreType : ScoreTypeGroup :=
  (ghostSetup.dataset.scoreTypeObject ghostSetup.compile).toOption.get (by decide +kernel)

/-- What is released first is evaluated. -/
def chainedActions : List GradingAction :=
  [.enqueue, .evaluate "000" [] none none]

theorem gated_evaluation_progresses_chained :
    ∃ s, (gradingMachine (chainedSetup ["000"])).exec ⟨compiledResult, []⟩ chainedActions = some s ∧
      ∀ outcome result, submissionEnqueueOperations (chainedSetup ["000"]).compile false
        (chainedSetup ["000"]).dataset s.result ⟨1, 0⟩ false = (outcome, result) →
        ∀ operations, outcome ≠ .released operations := by
  have hst : (chainedSetup ["000"]).dataset.scoreTypeObject (chainedSetup ["000"]).compile =
      .ok chainedScoreType :=
    eq_ok_of_toOption (Option.some_get _).symm
  have htargets : retrieveTargetTestcases (chainedSetup ["000"]).compile
      chainedScoreType.parameters (chainedSetup ["000"]).dataset.codenames =
        .ok [["000"], ["001"]] :=
    eq_ok_of_toOption (by decide +kernel)
  have hdependencies : chainedScoreType.dependencies = [[], [0]] := by
    decide +kernel
  have hrun : ((gradingMachine (chainedSetup ["000"])).exec ⟨compiledResult, []⟩
      chainedActions).isSome = true := by
    decide +kernel
  obtain ⟨s, hs⟩ := Option.isSome_iff_exists.1 hrun
  have hlisted : DependenciesListed (chainedSetup ["000"]) chainedScoreType [["000"], ["001"]] := by
    intro index number hnumber
    rw [hdependencies] at hnumber
    obtain rfl | hne := eq_or_ne index 1
    · rw [List.mem_singleton.1 hnumber]
      decide
    · have hnil : dependenciesOf [[], [0]] index = [] := by
        cases index with
        | zero => rfl
        | succ index =>
            cases index with
            | zero => exact absurd rfl hne
            | succ index => rfl
      rw [hnil] at hnumber
      cases hnumber
  refine ⟨s, hs, ?_⟩
  intro outcome result henqueue
  exact ((gated_evaluation_progresses (chainedSetup ["000"]) chainedScoreType [["000"], ["001"]]
    ⟨hst, htargets, fun htwoPhase => by cases htwoPhase⟩ (by decide) hlisted s
    (Machine.reachable_of_exec ⟨rfl, rfl, rfl, rfl⟩ hs)).2 false outcome result henqueue).1

/-- A codename that is no testcase, behind a private one, passes the constructor; its
subtask never completes, and the fallback has to release the other testcase. -/
theorem gated_evaluation_stuck :
    ∃ targets s, Graded ghostSetup ghostScoreType targets ∧
      (∀ c ∈ ghostSetup.dataset.codenames, ∃ target ∈ targets, c ∈ target) ∧
      (gradingMachine ghostSetup).Reachable s ∧ s.inFlight = [] ∧
      advanceBoth ghostSetup.compile ghostSetup.twoPhase ghostSetup.dataset
        s.result.evaluations = s.result.evaluations ∧
      s.requested ghostSetup = [] ∧ outcomeOf s.result.evaluations "001" = none ∧
      (submissionEnqueueOperations ghostSetup.compile ghostSetup.twoPhase ghostSetup.dataset
        s.result ghostSetup.submission false).1 =
          .released [⟨.evaluation, 1, 1, some "001", false⟩] := by
  have hst : ghostSetup.dataset.scoreTypeObject ghostSetup.compile = .ok ghostScoreType :=
    eq_ok_of_toOption (Option.some_get _).symm
  have htargets : retrieveTargetTestcases ghostSetup.compile ghostScoreType.parameters
      ghostSetup.dataset.codenames = .ok [["000", "ghost"], ["001"]] :=
    eq_ok_of_toOption (by decide +kernel)
  have hrun : ((gradingMachine ghostSetup).exec ⟨compiledResult, []⟩ chainedActions).map
      (fun s => (s.inFlight,
        decide (advanceBoth ghostSetup.compile ghostSetup.twoPhase ghostSetup.dataset
          s.result.evaluations = s.result.evaluations),
        s.requested ghostSetup, outcomeOf s.result.evaluations "001",
        (submissionEnqueueOperations ghostSetup.compile ghostSetup.twoPhase ghostSetup.dataset
          s.result ghostSetup.submission false).1)) =
      some ([], true, [], none, .released [⟨.evaluation, 1, 1, some "001", false⟩]) := by
    decide +kernel
  obtain ⟨s, hs, hvalues⟩ := Option.map_eq_some_iff.1 hrun
  simp only [Prod.mk.injEq, decide_eq_true_eq] at hvalues
  exact ⟨_, s, ⟨hst, htargets, fun htwoPhase => by cases htwoPhase⟩, by decide,
    Machine.reachable_of_exec ⟨rfl, rfl, rfl, rfl⟩ hs, hvalues⟩

end Grading
end ContestManagement
