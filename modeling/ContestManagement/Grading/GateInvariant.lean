import ContestManagement.Grading.Gates

/-!
# Why the gates may skip

The invariant of gated runs: every evaluation is explained.  It is a real one, or
it was skipped because a screening testcase that all of its subtasks contain gave
nothing, or because all of its subtasks have a dependency that is worth nothing
whatever is still to come.

A subtask is dead when it is worth nothing with the outcomes that the testcases
really give; this does not mention the evaluations made so far.
-/

namespace ContestManagement
namespace Grading

open Lib

/-- Every subtask with a testcase of a screened group contains the screening
testcases of the group, if the testcase is not one of them. -/
def Aligned (codenames : List String) (targets : List (List String)) : Prop :=
  ∀ target ∈ targets, ∀ c ∈ target, c ∈ codenames → isScreening c = false →
    ∀ z ∈ codenames, isScreening z = true → groupOf z = groupOf c → z ∈ target

instance (codenames : List String) (targets : List (List String)) :
    Decidable (Aligned codenames targets) :=
  inferInstanceAs (Decidable (∀ target ∈ targets, ∀ c ∈ target, c ∈ codenames →
    isScreening c = false → ∀ z ∈ codenames, isScreening z = true → groupOf z = groupOf c →
      z ∈ target))

/-- A setup with its score type and the targets of the subtasks. -/
structure Graded (setup : GradingSetup) (st : ScoreTypeGroup) (targets : List (List String)) :
    Prop where
  scoreType : setup.dataset.scoreTypeObject setup.compile = .ok st
  retrieved : retrieveTargetTestcases setup.compile st.parameters setup.dataset.codenames =
    .ok targets
  aligned : setup.twoPhase = true → Aligned setup.dataset.codenames targets

/-- The gate of the dataset is built from its score type and targets. -/
theorem Graded.gate {setup : GradingSetup} {st : ScoreTypeGroup} {targets : List (List String)}
    (h : Graded setup st targets) {g : SubtaskGate}
    (hgate : setup.dataset.gate setup.compile = some g) :
    g.Built ∧ g.scoreType = st ∧ g.targets = targets := by
  obtain ⟨hbuilt, hst, hretrieved⟩ := built_of_gate h.scoreType hgate
  rw [h.retrieved] at hretrieved
  cases hretrieved
  exact ⟨hbuilt, hst, rfl⟩

/-- The outcomes that the testcases of a subtask really give. -/
def realOutcomes (setup : GradingSetup) (target : List String) : List ℚ :=
  target.map fun codename => (setup.outcome codename : ℚ)

theorem realOutcomes_nonneg (setup : GradingSetup) (target : List String) :
    ∀ x ∈ realOutcomes setup target, 0 ≤ x := by
  intro x hx
  obtain ⟨codename, -, rfl⟩ := List.mem_map.1 hx
  exact (setup.outcome codename).2

/-- The subtask is worth nothing, by its own outcomes or through a dependency. -/
inductive Dead (setup : GradingSetup) (st : ScoreTypeGroup) (targets : List (List String)) :
    Nat → Prop
  | own {index : Nat} {fraction : ℚ}
      (reduced : reduce st.kind (realOutcomes setup (targets.getD index []))
        (st.parameters.getD index .none) = .ok fraction)
      (nonpos : fraction ≤ 0) : Dead setup st targets index
  | dependency {index number : Nat} (depends : number ∈ dependenciesOf st.dependencies index)
      (dead : Dead setup st targets number) : Dead setup st targets index

/-- All the subtasks of a testcase have a dead dependency. -/
def Blocked (setup : GradingSetup) (st : ScoreTypeGroup) (targets : List (List String))
    (codename : String) : Prop :=
  ∀ index < targets.length, codename ∈ targets.getD index [] →
    ∃ number ∈ dependenciesOf st.dependencies index, Dead setup st targets number

/-- Where the outcome of a testcase comes from; `marked` tells whether its text is
the one of the dependency gate. -/
inductive Explained (setup : GradingSetup) (st : ScoreTypeGroup) (targets : List (List String))
    (codename : String) (outcome : ℚ) (marked : Bool) : Prop
  | real (same : outcome = setup.outcome codename) (unmarked : marked = false)
  | screened (zero : outcome = 0) (unmarked : marked = false)
      (plain : isScreening codename = false)
      (failed : ∀ index < targets.length, codename ∈ targets.getD index [] →
        ∃ z ∈ targets.getD index [], (setup.outcome z : ℚ) = 0)
  | skipped (zero : outcome = 0) (mark : marked = true)
      (gated : ∃ g, setup.dataset.gate setup.compile = some g)
      (blocked : Blocked setup st targets codename)

/-- Every evaluation is of a testcase of the dataset, and explained. -/
def AllExplained (setup : GradingSetup) (st : ScoreTypeGroup) (targets : List (List String))
    (evaluations : List Evaluation) : Prop :=
  ∀ e ∈ evaluations, e.codename ∈ setup.dataset.codenames ∧
    Explained setup st targets e.codename e.outcome e.skippedByDependency

theorem exists_of_outcomeOf {F : Type} {evaluations : List (Evaluation F)} {codename : String}
    {outcome : F} (h : outcomeOf evaluations codename = some outcome) :
    ∃ e ∈ evaluations, e.codename = codename ∧ e.outcome = outcome := by
  rw [outcomeOf, Option.map_eq_some_iff] at h
  obtain ⟨e, he, hout⟩ := h
  exact ⟨e, List.mem_of_find?_eq_some he, by simpa using List.find?_some he, hout⟩

variable {setup : GradingSetup} {st : ScoreTypeGroup} {targets : List (List String)}

theorem AllExplained.outcome {evaluations : List Evaluation}
    (h : AllExplained setup st targets evaluations) {codename : String} {outcome : ℚ}
    (hout : outcomeOf evaluations codename = some outcome) :
    ∃ marked, Explained setup st targets codename outcome marked := by
  obtain ⟨e, he, rfl, rfl⟩ := exists_of_outcomeOf hout
  exact ⟨_, (h e he).2⟩

theorem Explained.nonneg {codename : String} {outcome : ℚ} {marked : Bool}
    (h : Explained setup st targets codename outcome marked) : 0 ≤ outcome := by
  cases h with
  | real same =>
      rw [same]
      exact (setup.outcome codename).2
  | screened zero => exact le_of_eq zero.symm
  | skipped zero => exact le_of_eq zero.symm

/-! ### The statuses tell the truth -/

section Statuses

variable {g : SubtaskGate} {evaluations : List Evaluation}

/-- A fatal outcome that really is given kills its subtask. -/
theorem dead_of_real_fatal (hbuilt : g.Built) (hst : g.scoreType = st)
    (htargets : g.targets = targets) {index : Nat} (hindex : index < targets.length)
    {codename : String} (hmem : codename ∈ targets.getD index [])
    (hfatal : Fatal st.kind (st.parameters.getD index .none) (setup.outcome codename : ℚ)) :
    Dead setup st targets index := by
  subst hst htargets
  have hreal : (setup.outcome codename : ℚ) ∈ realOutcomes setup (g.targets.getD index []) :=
    List.mem_map.2 ⟨codename, hmem, rfl⟩
  obtain ⟨fraction, hfraction⟩ := reduce_ok_of_readable (hbuilt.readable index hindex)
    (List.ne_nil_of_mem hreal)
  exact .own hfraction ((reduce_nonpos_iff (realOutcomes_nonneg setup _) hfraction).2
    ⟨_, hreal, hfatal⟩)

/-- Zero is fatal to the subtasks of a gate. -/
theorem fatal_zero (hbuilt : g.Built) (hst : g.scoreType = st) {index : Nat}
    (hindex : index < g.targets.length) :
    Fatal st.kind (st.parameters.getD index .none) 0 := by
  subst hst
  obtain ⟨fraction, hfraction⟩ := reduce_ok_of_readable (hbuilt.readable index hindex)
    (List.cons_ne_nil 0 [])
  exact fatal_of_nonpos hfraction (le_refl 0)

/-- A fatal outcome among the evaluations so far kills the subtask. -/
theorem Explained.dead (hbuilt : g.Built) (hst : g.scoreType = st) (htargets : g.targets = targets)
    {index : Nat} (hindex : index < targets.length) {codename : String} {outcome : ℚ}
    {marked : Bool} (h : Explained setup st targets codename outcome marked)
    (hmem : codename ∈ targets.getD index [])
    (hfatal : Fatal st.kind (st.parameters.getD index .none) outcome) :
    Dead setup st targets index := by
  cases h with
  | real same => exact dead_of_real_fatal hbuilt hst htargets hindex hmem (same ▸ hfatal)
  | screened zero unmarked plain failed =>
      obtain ⟨z, hz, hzero⟩ := failed index hindex hmem
      refine dead_of_real_fatal hbuilt hst htargets hindex hz ?_
      rw [hzero]
      exact fatal_zero hbuilt hst (htargets ▸ hindex)
  | skipped zero mark gated blocked =>
      obtain ⟨number, hnumber, hdead⟩ := blocked index hindex hmem
      exact .dependency hnumber hdead

/-- Reducing what is done so far fails exactly when something in it is fatal. -/
theorem ownFailed_iff (hbuilt : g.Built) (hst : g.scoreType = st) {index : Nat}
    (hindex : index < g.targets.length) {done : List ℚ} (hnonneg : ∀ x ∈ done, 0 ≤ x) :
    g.ownFailed done index = true ↔
      ∃ x ∈ done, Fatal st.kind (st.parameters.getD index .none) x := by
  subst hst
  by_cases hnil : done = []
  · subst hnil
    simp [SubtaskGate.ownFailed]
  · obtain ⟨fraction, hfraction⟩ := reduce_ok_of_readable (hbuilt.readable index hindex) hnil
    rw [SubtaskGate.ownFailed, hfraction]
    simp only [ne_eq, hnil, not_false_eq_true, decide_true, Bool.true_and, decide_eq_true_eq]
    exact reduce_nonpos_iff hnonneg hfraction

theorem AllExplained.done_nonneg (h : AllExplained setup st targets evaluations) (index : Nat) :
    ∀ x ∈ g.done (outcomeOf evaluations) index, 0 ≤ x := by
  refine SubtaskGate.forall_mem_done (fun codename x hout => ?_) index
  obtain ⟨marked, hexplained⟩ := h.outcome hout
  exact hexplained.nonneg

/-- A subtask that the gate calls failed is dead. -/
theorem AllExplained.dead_of_failed (h : AllExplained setup st targets evaluations)
    (hbuilt : g.Built) (hst : g.scoreType = st) (htargets : g.targets = targets) :
    ∀ index < targets.length, (g.statuses (outcomeOf evaluations) index).1 = .failed →
      Dead setup st targets index := by
  rw [← htargets]
  refine hbuilt.induction ?_
  intro index hindex ih hfailed
  cases hbuilt.statusCase (outcomeOf evaluations) hindex with
  | blocked least status dependency failed =>
      have hdead := ih least dependency failed
      subst hst
      exact .dependency dependency hdead
  | ownFailure status unblocked failed =>
      obtain ⟨x, hx, hfatal⟩ := (ownFailed_iff hbuilt hst hindex (h.done_nonneg index)).1 failed
      obtain ⟨codename, hmem, hout⟩ := List.mem_filterMap.1 hx
      obtain ⟨marked, hexplained⟩ := h.outcome hout
      subst htargets
      exact hexplained.dead hbuilt hst rfl hindex hmem hfatal
  | passed status =>
      rw [status] at hfailed
      cases hfailed
  | pending status =>
      rw [status] at hfailed
      cases hfailed

/-- What blocks a subtask is a dead dependency. -/
theorem AllExplained.dead_of_blocked (h : AllExplained setup st targets evaluations)
    (hbuilt : g.Built) (hst : g.scoreType = st) (htargets : g.targets = targets) {index : Nat}
    (hindex : index < targets.length)
    (hblocked : (g.statuses (outcomeOf evaluations) index).2 ≠ none) :
    ∃ number ∈ dependenciesOf st.dependencies index, Dead setup st targets number := by
  have hindex' : index < g.targets.length := htargets ▸ hindex
  cases hbuilt.statusCase (outcomeOf evaluations) hindex' with
  | blocked least status dependency failed =>
      have hlt : least < targets.length := htargets ▸ hbuilt.dependency_lt hindex' dependency
      subst hst
      exact ⟨least, dependency, h.dead_of_failed hbuilt rfl htargets least hlt failed⟩
  | ownFailure status => exact absurd (congrArg Prod.snd status) hblocked
  | passed status => exact absurd (congrArg Prod.snd status) hblocked
  | pending status => exact absurd (congrArg Prod.snd status) hblocked

/-- A subtask that the gate calls passed is not dead. -/
theorem AllExplained.not_dead_of_passed (h : AllExplained setup st targets evaluations)
    (hbuilt : g.Built) (hst : g.scoreType = st) (htargets : g.targets = targets) :
    ∀ index < targets.length, (g.statuses (outcomeOf evaluations) index).1 = .passed →
      ¬Dead setup st targets index := by
  rw [← htargets]
  refine hbuilt.induction ?_
  intro index hindex ih hpassed hdead
  cases hbuilt.statusCase (outcomeOf evaluations) hindex with
  | blocked least status =>
      rw [status] at hpassed
      cases hpassed
  | ownFailure status =>
      rw [status] at hpassed
      cases hpassed
  | pending status =>
      rw [status] at hpassed
      cases hpassed
  | passed status notFailed complete dependencies =>
      subst hst
      cases hdead with
      | dependency depends dead => exact ih _ depends (dependencies _ depends) dead
      | own reduced nonpos =>
          obtain ⟨x, hx, hfatal⟩ := (reduce_nonpos_iff (realOutcomes_nonneg setup _) reduced).1 nonpos
          obtain ⟨codename, hmem, rfl⟩ := List.mem_map.1 hx
          -- Every testcase of the subtask is evaluated, this one too.
          obtain ⟨outcome, hout⟩ : ∃ outcome, outcomeOf evaluations codename = some outcome := by
            cases hout : outcomeOf evaluations codename with
            | some outcome => exact ⟨outcome, rfl⟩
            | none =>
                have hlt : (g.done (outcomeOf evaluations) index).length <
                    (g.target index).length :=
                  length_filterMap_lt_of_none hmem hout
                omega
          have hfatal' : Fatal g.scoreType.kind (g.scoreType.parameters.getD index .none) outcome := by
            obtain ⟨marked, hexplained⟩ := h.outcome hout
            cases hexplained with
            | real same => exact same ▸ hfatal
            | screened zero => exact zero ▸ fatal_zero hbuilt rfl hindex
            | skipped zero => exact zero ▸ fatal_zero hbuilt rfl hindex
          have hfailed := (ownFailed_iff hbuilt rfl hindex (h.done_nonneg index)).2
            ⟨outcome, List.mem_filterMap.2 ⟨codename, hmem, hout⟩, hfatal'⟩
          rw [notFailed] at hfailed
          cases hfailed

end Statuses

/-! ### The gates keep the invariant -/

/-- The testcases that two-phase grading skips now. -/
def screeningSkips {F : Type} [OfNat F 0] [LT F] [DecidableLT F] (dataset : Dataset)
    (evaluations : List (Evaluation F)) : List (Evaluation F) :=
  (dataset.codenames.filter fun codename =>
    (outcomeOf evaluations codename).isNone && !isScreening codename &&
      (groupScreeningStatus dataset.codenames (outcomesForScreening evaluations)
        (groupOf codename)).getD .passed = .failed).map fun codename =>
          skippedEvaluation codename [skippedMessage]

theorem advanceTwoPhase_eq {F : Type} [OfNat F 0] [LT F] [DecidableLT F] (dataset : Dataset)
    (evaluations : List (Evaluation F)) :
    advanceTwoPhase dataset evaluations =
      evaluations ++ screeningSkips dataset evaluations := rfl

/-- Two-phase grading only skips where a screening testcase has no points. -/
theorem mem_screeningSkips {dataset : Dataset} {evaluations : List Evaluation} {e : Evaluation}
    (h : e ∈ screeningSkips dataset evaluations) :
    e.codename ∈ dataset.codenames ∧ isScreening e.codename = false ∧
      ∃ z ∈ dataset.codenames, isScreening z = true ∧ groupOf z = groupOf e.codename ∧
        ∃ q, outcomesForScreening evaluations z = some q ∧ q ≤ 0 := by
  obtain ⟨codename, hcodename, rfl⟩ := List.mem_map.1 h
  obtain ⟨hmem, hcond⟩ := List.mem_filter.1 hcodename
  simp only [Bool.and_eq_true, Bool.not_eq_true', decide_eq_true_eq] at hcond
  refine ⟨hmem, hcond.1.2, ?_⟩
  cases hgroup : groupScreeningStatus dataset.codenames (outcomesForScreening evaluations)
      (groupOf codename) with
  | none =>
      rw [hgroup] at hcond
      cases hcond.2
  | some status =>
      rw [hgroup, Option.getD_some] at hcond
      rw [hcond.2] at hgroup
      exact exists_of_screening_failed hgroup

/-- A screening testcase without the mark was really evaluated. -/
theorem AllExplained.real_zero {evaluations : List Evaluation}
    (h : AllExplained setup st targets evaluations) {e : Evaluation} (he : e ∈ evaluations)
    (hscreening : isScreening e.codename = true) (hmark : e.skippedByDependency = false)
    (hle : e.outcome ≤ 0) : (setup.outcome e.codename : ℚ) = 0 := by
  cases (h e he).2 with
  | real same =>
      rw [same] at hle
      exact le_antisymm hle (setup.outcome e.codename).2
  | screened _ _ plain _ =>
      rw [hscreening] at plain
      cases plain
  | skipped _ mark =>
      rw [mark] at hmark
      cases hmark

theorem AllExplained.advanceTwoPhase {evaluations : List Evaluation}
    (h : AllExplained setup st targets evaluations) (hgraded : Graded setup st targets)
    (htwoPhase : setup.twoPhase = true) :
    AllExplained setup st targets (Grading.advanceTwoPhase setup.dataset evaluations) := by
  intro e he
  rcases List.mem_append.1 he with he | he
  · exact h e he
  · obtain ⟨hmem, hplain, z, hz, hscreening, hgroup, q, hq, hle⟩ := mem_screeningSkips he
    obtain ⟨found, hfound, rfl, rfl⟩ := exists_of_outcomeOf hq
    obtain ⟨hfound, hmark⟩ := List.mem_filter.1 hfound
    have hzero := h.real_zero hfound hscreening (by simpa using hmark) hle
    obtain ⟨codename, -, rfl⟩ := List.mem_map.1 he
    refine ⟨hmem, .screened rfl rfl hplain ?_⟩
    intro index hindex hcontains
    have htarget : targets.getD index [] ∈ targets := by
      simp [hindex]
    exact ⟨found.codename, hgraded.aligned htwoPhase _ htarget codename hcontains hmem hplain
      found.codename hz hscreening hgroup, hzero⟩

/-- The testcases that the dependency gate skips are blocked. -/
theorem AllExplained.blocked_of_skippable {evaluations : List Evaluation}
    (h : AllExplained setup st targets evaluations) {g : SubtaskGate} (hbuilt : g.Built)
    (hst : g.scoreType = st) (htargets : g.targets = targets) {codename : String} {number : Nat}
    (hskip : g.skippable (g.statuses (outcomeOf evaluations)) codename = some number) :
    Blocked setup st targets codename := by
  intro index hindex hmem
  have hsubtask : index ∈ g.subtasksOf codename :=
    SubtaskGate.mem_subtasksOf.2 ⟨htargets ▸ hindex, by rw [← htargets] at hmem; exact hmem⟩
  refine h.dead_of_blocked hbuilt hst htargets hindex ?_
  intro hnone
  rw [SubtaskGate.skippable_eq_none_iff.2 (.inr ⟨index, hsubtask, hnone⟩)] at hskip
  cases hskip

theorem AllExplained.advanceDependencies {evaluations : List Evaluation}
    (h : AllExplained setup st targets evaluations) (hgraded : Graded setup st targets) :
    AllExplained setup st targets
      (Grading.advanceDependencies setup.compile setup.dataset evaluations) := by
  rw [Grading.advanceDependencies]
  cases hgate : setup.dataset.gate setup.compile with
  | none => exact h
  | some g =>
      obtain ⟨hbuilt, hst, htargets⟩ := hgraded.gate hgate
      intro e he
      rcases List.mem_append.1 he with he | he
      · exact h e he
      · obtain ⟨codename, hcodename, hskip⟩ := List.mem_filterMap.1 he
        obtain ⟨number, hnumber, rfl⟩ := Option.map_eq_some_iff.1 hskip
        exact ⟨(List.mem_filter.1 hcodename).1,
          .skipped rfl (by simp [Evaluation.skippedByDependency, skippedEvaluation]) ⟨g, hgate⟩
            (h.blocked_of_skippable hbuilt hst htargets hnumber)⟩

/-- The invariant of the runs. -/
structure GradingRun.Inv (setup : GradingSetup) (st : ScoreTypeGroup)
    (targets : List (List String)) (s : GradingRun) : Prop where
  explained : AllExplained setup st targets s.result.evaluations
  inFlight : ∀ codename ∈ s.inFlight, codename ∈ setup.dataset.codenames
  toCompile : submissionToCompile (some s.result) = false
  toEvaluate : submissionToEvaluate (some s.result) = true

theorem GradingRun.requested_subset {s : GradingRun} {codename : String}
    (h : codename ∈ s.requested setup) : codename ∈ setup.dataset.codenames := by
  obtain ⟨operation, hoperation, hcodename⟩ := List.mem_filterMap.1 h
  rw [submissionGetOperations] at hoperation
  split at hoperation
  · rw [List.mem_singleton] at hoperation
    subst hoperation
    cases hcodename
  · dsimp only at hoperation
    split at hoperation
    · obtain ⟨c, hc, rfl⟩ := List.mem_map.1 hoperation
      cases hcodename
      exact (List.mem_filter.1 hc).1
    · cases hoperation

theorem GradingRun.Inv.step {s t : GradingRun} (h : s.Inv setup st targets)
    (hgraded : Graded setup st targets) {a : GradingAction}
    (hstep : s.step setup a = some t) : t.Inv setup st targets := by
  cases a with
  | enqueue =>
      cases hstep
      refine ⟨h.explained, ?_, h.toCompile, h.toEvaluate⟩
      intro codename hcodename
      rcases List.mem_append.1 hcodename with hcodename | hcodename
      · exact h.inFlight codename hcodename
      · exact requested_subset (List.mem_filter.1 hcodename).1
  | evaluate codename text time memory =>
      simp only [GradingRun.step] at hstep
      split at hstep
      · rename_i hflight
        have hrest : ∀ c ∈ s.inFlight.filter (· ≠ codename), c ∈ setup.dataset.codenames :=
          fun c hc => h.inFlight c (List.mem_filter.1 hc).1
        split at hstep
        · cases hstep
          refine ⟨?_, hrest, h.toCompile, h.toEvaluate⟩
          intro e he
          rcases List.mem_append.1 he with he | he
          · exact h.explained e he
          · rw [List.mem_singleton] at he
            subst he
            exact ⟨h.inFlight codename hflight.1,
              .real rfl (by simpa [Evaluation.skippedByDependency] using hflight.2)⟩
        · cases hstep
          exact ⟨h.explained, hrest, h.toCompile, h.toEvaluate⟩
      · cases hstep
  | advanceTwoPhase =>
      simp only [GradingRun.step] at hstep
      split at hstep
      · rename_i htwoPhase
        cases hstep
        exact ⟨h.explained.advanceTwoPhase hgraded htwoPhase, h.inFlight, h.toCompile,
          h.toEvaluate⟩
      · cases hstep
  | advanceDependencies =>
      cases hstep
      exact ⟨h.explained.advanceDependencies hgraded, h.inFlight, h.toCompile, h.toEvaluate⟩

theorem GradingRun.inv_of_init {s : GradingRun} (h : (gradingMachine setup).init s) :
    s.Inv setup st targets := by
  obtain ⟨hflight, hevaluations, htoCompile, htoEvaluate⟩ := h
  refine ⟨?_, ?_, htoCompile, htoEvaluate⟩
  · rw [hevaluations]
    intro e he
    cases he
  · rw [hflight]
    intro c hc
    cases hc

/-- In every run every evaluation is explained. -/
theorem GradingRun.inv_of_reachable {s : GradingRun} (hgraded : Graded setup st targets)
    (h : (gradingMachine setup).Reachable s) : s.Inv setup st targets :=
  h.invariant (fun _ hs => inv_of_init hs) (fun _ _ _ hs hstep => hs.step hgraded hstep)

end Grading
end ContestManagement
