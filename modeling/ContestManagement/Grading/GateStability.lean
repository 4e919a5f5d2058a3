import ContestManagement.Grading.FloatReduction
import ContestManagement.Grading.GateProgress

/-!
# The verdicts of the gates are final

Evaluations are only ever added to a submission result.  So a subtask that has passed or failed
stays so, and so does the screening of a group, whatever is added later and by whom; for products,
as long as those that vanish do not come back.  A testcase that was once released stands on such
verdicts, and no gate skips it afterwards.
-/

namespace ContestManagement
namespace Grading

open Lib

section Known

variable {F : Type} {outcomes outcomes' : String → Option F}

/-- What is known stays. -/
def Keeps (outcomes outcomes' : String → Option F) : Prop :=
  ∀ codename q, outcomes codename = some q → outcomes' codename = some q

/-- When all outcomes of a list are known, they are later the same. -/
theorem filterMap_eq_of_complete (hkeeps : Keeps outcomes outcomes') {codenames : List String}
    (hcomplete : (codenames.filterMap outcomes).length = codenames.length) :
    codenames.filterMap outcomes' = codenames.filterMap outcomes := by
  refine List.filterMap_congr fun codename hmem => ?_
  cases hknown : outcomes codename with
  | some q => exact hkeeps codename q hknown
  | none =>
      have hlt := length_filterMap_lt_of_none hmem hknown
      omega

/-- Later outcomes stand between the earlier ones. -/
theorem filterMap_sublist (hkeeps : Keeps outcomes outcomes') (codenames : List String) :
    (codenames.filterMap outcomes).Sublist (codenames.filterMap outcomes') := by
  induction codenames with
  | nil => exact .slnil
  | cons codename rest ih =>
      cases hknown : outcomes codename with
      | some q =>
          rw [List.filterMap_cons_some hknown, List.filterMap_cons_some (hkeeps codename q hknown)]
          exact ih.cons_cons q
      | none =>
          rw [List.filterMap_cons_none hknown]
          cases hlater : outcomes' codename with
          | some q =>
              rw [List.filterMap_cons_some hlater]
              exact ih.cons q
          | none =>
              rw [List.filterMap_cons_none hlater]
              exact ih

end Known

/-! ### The statuses of the subtasks -/

namespace SubtaskGate

section Later

variable {F : Type} [OfNat F 0] [OfNat F 1] [Mul F] [LT F] [DecidableLT F] [LE F] [DecidableLE F]
  [Fractions F]

/-- Later outcomes: what is known stays, and what has failed fails with them. -/
structure Later (g : SubtaskGate) (outcomes outcomes' : String → Option F) : Prop where
  keeps : Keeps outcomes outcomes'
  failed : ∀ index < g.targets.length, g.ownFailed (g.done outcomes index) index = true →
    g.ownFailed (g.done outcomes' index) index = true

variable {g : SubtaskGate} {outcomes outcomes' : String → Option F}

/-- A subtask that has passed or failed stays so. -/
theorem Built.status_later (hbuilt : g.Built) (h : g.Later outcomes outcomes') :
    ∀ index < g.targets.length, (g.statuses outcomes index).1 ≠ .pending →
      (g.statuses outcomes' index).1 = (g.statuses outcomes index).1 := by
  refine hbuilt.induction ?_
  intro index hindex ih hdecided
  -- What the dependencies had before they have now.
  have hstillFailed : ∀ number ∈ g.dependenciesOf index,
      (g.statuses outcomes number).1 = .failed →
        (g.statuses outcomes' number).1 = .failed := by
    intro number hnumber hfailed
    rw [ih number hnumber (by rw [hfailed]; decide), hfailed]
  have hstillPassed : ∀ number ∈ g.dependenciesOf index,
      (g.statuses outcomes number).1 = .passed →
        (g.statuses outcomes' number).1 = .passed := by
    intro number hnumber hpassed
    rw [ih number hnumber (by rw [hpassed]; decide), hpassed]
  cases hbuilt.statusCase outcomes hindex with
  | blocked least status dependency failed =>
      rw [status]
      have hfailed := hstillFailed least dependency failed
      cases hbuilt.statusCase outcomes' hindex with
      | blocked _ status' => rw [status']
      | ownFailure status' => rw [status']
      | passed status' notFailed complete dependencies =>
          rw [dependencies least dependency] at hfailed
          cases hfailed
      | pending status' unblocked => exact absurd hfailed (unblocked least dependency)
  | ownFailure status unblocked failed =>
      rw [status]
      exact hbuilt.failed_of_ownFailed hindex (h.failed index hindex failed)
  | passed status notFailed complete dependencies =>
      rw [status]
      have hdone : g.done outcomes' index = g.done outcomes index :=
        filterMap_eq_of_complete h.keeps complete
      have hpassed : ∀ number ∈ g.dependenciesOf index,
          (g.statuses outcomes' number).1 = .passed :=
        fun number hnumber => hstillPassed number hnumber (dependencies number hnumber)
      cases hbuilt.statusCase outcomes' hindex with
      | blocked least status' dependency failed =>
          rw [hpassed least dependency] at failed
          cases failed
      | ownFailure status' unblocked failed =>
          rw [hdone, notFailed] at failed
          cases failed
      | passed status' => rw [status']
      | pending status' unblocked notFailed' incomplete =>
          obtain ⟨number, hnumber, hnot⟩ := incomplete (by rw [hdone, complete])
          exact absurd (hpassed number hnumber) hnot
  | pending status => exact absurd (by rw [status]) hdecided

/-- A subtask that is blocked stays blocked, by the same dependency or a lower one. -/
theorem Built.blocked_later (hbuilt : g.Built) (h : g.Later outcomes outcomes') {index : Nat}
    (hindex : index < g.targets.length) {number : Nat}
    (hblocked : (g.statuses outcomes index).2 = some number) :
    ∃ least ≤ number, (g.statuses outcomes' index).2 = some least := by
  have hfailed : number ∈ (g.dependenciesOf index).filter fun number =>
      (g.statuses outcomes' number).1 = .failed := by
    cases hbuilt.statusCase outcomes hindex with
    | blocked least status dependency failed =>
        rw [status, Option.some.injEq] at hblocked
        subst hblocked
        rw [List.mem_filter, decide_eq_true_eq]
        refine ⟨dependency, ?_⟩
        rw [hbuilt.status_later h least (hbuilt.dependency_lt hindex dependency)
          (by rw [failed]; decide), failed]
    | ownFailure status =>
        rw [status] at hblocked
        cases hblocked
    | passed status =>
        rw [status] at hblocked
        cases hblocked
    | pending status =>
        rw [status] at hblocked
        cases hblocked
  obtain ⟨least, hleast⟩ := Option.ne_none_iff_exists'.1
    (mt List.min?_eq_none_iff.1 (List.ne_nil_of_mem hfailed))
  refine ⟨least, (List.min?_eq_some_iff.1 hleast).2 number hfailed, ?_⟩
  rw [hbuilt.statuses_eq outcomes' hindex, statusRule, hleast]

/-- What is releasable stays releasable. -/
theorem Built.releasable_later (hbuilt : g.Built) (h : g.Later outcomes outcomes')
    {codename : String} (hreleasable : g.releasable codename (g.statuses outcomes) = true) :
    g.releasable codename (g.statuses outcomes') = true := by
  rw [releasable, Bool.or_eq_true, List.any_eq_true] at hreleasable ⊢
  refine hreleasable.imp id ?_
  rintro ⟨index, hmem, hpassed⟩
  refine ⟨index, hmem, ?_⟩
  rw [List.all_eq_true] at hpassed ⊢
  intro number hnumber
  have hbefore := hpassed number hnumber
  rw [decide_eq_true_eq] at hbefore ⊢
  have hlt := hbuilt.dependency_lt (mem_subtasksOf.1 hmem).1 hnumber
  rw [hbuilt.status_later h number hlt (by rw [hbefore]; decide), hbefore]

/-- What is releasable is not skipped. -/
theorem Built.not_skippable (hbuilt : g.Built) {codename : String}
    (hreleasable : g.releasable codename (g.statuses outcomes) = true) :
    g.skippable (g.statuses outcomes) codename = none := by
  rw [skippable_eq_none_iff]
  rw [releasable, Bool.or_eq_true, List.isEmpty_iff, List.any_eq_true] at hreleasable
  refine hreleasable.imp id ?_
  rintro ⟨index, hmem, hpassed⟩
  refine ⟨index, hmem, ?_⟩
  rw [List.all_eq_true] at hpassed
  cases hbuilt.statusCase outcomes (mem_subtasksOf.1 hmem).1 with
  | blocked least status dependency failed =>
      have hleast := hpassed least dependency
      rw [failed] at hleast
      cases hleast
  | ownFailure status => rw [status]
  | passed status => rw [status]
  | pending status => rw [status]

end Later

end SubtaskGate

/-! ### The screening of the groups -/

/-- A group that has passed or failed its screening stays so. -/
theorem screening_later {F : Type} [OfNat F 0] [LT F] [DecidableLT F] {codenames : List String}
    {outcomes outcomes' : String → Option F} (hkeeps : Keeps outcomes outcomes') {group : String}
    {verdict : Option ScreeningStatus}
    (hdecided : verdict ≠ some .pending)
    (hverdict : groupScreeningStatus codenames outcomes group = verdict) :
    groupScreeningStatus codenames outcomes' group = verdict := by
  subst hverdict
  unfold groupScreeningStatus at hdecided ⊢
  by_cases hnone : screeningOf codenames group = []
  · rw [if_pos hnone, if_pos hnone]
  · rw [if_neg hnone] at hdecided ⊢
    rw [if_neg hnone]
    dsimp only at hdecided ⊢
    by_cases hpending : ((screeningOf codenames group).filterMap outcomes).length <
        (screeningOf codenames group).length
    · rw [if_pos hpending] at hdecided
      exact absurd rfl hdecided
    · have hle := List.length_filterMap_le outcomes (screeningOf codenames group)
      rw [filterMap_eq_of_complete hkeeps (by omega)]

/-! ### Evaluations that are added -/

/-- The outcomes are what the testcases give, or the zeros of skips. -/
def Possible (setup : GradingSetup PyFloat) (outcomes : String → Option PyFloat) : Prop :=
  ∀ codename q, outcomes codename = some q → q = setup.outcome codename ∨ q = 0

theorem Possible.ne_nan {setup : GradingSetup PyFloat} {outcomes : String → Option PyFloat}
    (h : Possible setup outcomes) {codename : String} {x : PyFloat}
    (hknown : outcomes codename = some x) : x ≠ .nan := by
  rcases h codename x hknown with rfl | rfl
  · exact PyFloat.ne_nan_of_nonneg (setup.outcome codename).2
  · exact PyFloat.noConfusion

/-- Where outcomes are multiplied, a product that is at most zero does not come back with further
outcomes, as the gate assumes. -/
def ProductsLast (setup : GradingSetup PyFloat) : Prop :=
  ∀ g, setup.dataset.gate setup.compile = some g → g.scoreType.kind = .groupMul →
    ∀ outcomes outcomes', Possible setup outcomes → Possible setup outcomes' →
      Keeps outcomes outcomes' → ∀ index < g.targets.length,
        PyFloat.product (g.done outcomes index) ≤ 0 → PyFloat.product (g.done outcomes' index) ≤ 0

/-- Outcomes up to one are multiplied without such a surprise. -/
theorem productsLast_of_inUnit {setup : GradingSetup PyFloat}
    (h : ∀ codename, PyFloat.InUnit (setup.outcome codename)) : ProductsLast setup := by
  intro g _ _ outcomes outcomes' _ hpossible hkeeps index _ hnonpos
  refine PyFloat.le_trans (PyFloat.product_le_of_sublist (filterMap_sublist hkeeps _)
    (SubtaskGate.forall_mem_done (fun codename x hknown => ?_) index)) hnonpos
  rcases hpossible codename x hknown with rfl | rfl
  · exact h codename
  · exact PyFloat.inUnit_zero

section Added

variable {setup : GradingSetup PyFloat} {g : SubtaskGate}
  {outcomes outcomes' : String → Option PyFloat} {before after : List (Evaluation PyFloat)}

theorem keeps_outcomeOf (h : before <+: after) : Keeps (outcomeOf before) (outcomeOf after) := by
  intro codename q hknown
  obtain ⟨more, rfl⟩ := h
  rw [outcomeOf_append, hknown, Option.some_or]

theorem keeps_screening (h : before <+: after) :
    Keeps (outcomesForScreening before) (outcomesForScreening after) := by
  obtain ⟨more, rfl⟩ := h
  intro codename q hknown
  rw [outcomesForScreening, List.filter_append, outcomeOf_append]
  change (outcomesForScreening before codename).or _ = some q
  rw [hknown, Option.some_or]

/-- The gate of a dataset is built from a score type that was accepted. -/
theorem built_of_gate_some (hgate : setup.dataset.gate setup.compile = some g) : g.Built := by
  cases hst : setup.dataset.scoreTypeObject setup.compile with
  | ok st => exact (built_of_gate hst hgate).1
  | error e =>
      rw [Dataset.gate, hst] at hgate
      split at hgate
      · cases hgate
      · cases hgate

/-- What has failed by its own outcomes does so with more of them. -/
theorem later_of_keeps (hproducts : ProductsLast setup)
    (hgate : setup.dataset.gate setup.compile = some g) (hbefore : Possible setup outcomes)
    (hafter : Possible setup outcomes') (hkeeps : Keeps outcomes outcomes') :
    g.Later outcomes outcomes' := by
  refine ⟨hkeeps, fun index hindex hfailed => ?_⟩
  have hsub : (g.done outcomes index).Sublist (g.done outcomes' index) :=
    filterMap_sublist hkeeps _
  have hreadable := (built_of_gate_some hgate).readable index hindex
  obtain ⟨hne, f, hf, hnonpos⟩ := SubtaskGate.ownFailed_iff_reduce.1 hfailed
  have hne' : g.done outcomes' index ≠ [] := fun hnil => hne (List.sublist_nil.1 (hnil ▸ hsub))
  obtain ⟨f', hf'⟩ := reduce_ok_of_readable hreadable hne'
  refine SubtaskGate.ownFailed_iff_reduce.2 ⟨hne', f', hf', ?_⟩
  have hnumbers : ∀ x ∈ g.done outcomes' index, x ≠ .nan :=
    SubtaskGate.forall_mem_done (fun _ _ => hafter.ne_nan) index
  by_cases hkind : g.scoreType.kind = .groupMul
  · -- Nothing in the reduction itself keeps a product of floats down.
    rw [hkind] at hf hf'
    obtain ⟨-, rfl⟩ := reduce_product_iff.1 hf
    obtain ⟨-, rfl⟩ := reduce_product_iff.1 hf'
    exact hproducts g hgate hkind outcomes outcomes' hbefore hafter hkeeps index hindex hnonpos
  · exact reduce_nonpos_of_subset hkind hsub.subset hnumbers hf hnonpos hf'

/-- Evaluations with more behind them; all outcomes are those of the testcases or of skips. -/
structure Extends (setup : GradingSetup PyFloat) (before after : List (Evaluation PyFloat)) :
    Prop where
  added : before <+: after
  possible : ∀ e ∈ after, e.outcome = setup.outcome e.codename ∨ e.outcome = 0

theorem possible_of_forall (h : ∀ e ∈ after, e.outcome = setup.outcome e.codename ∨ e.outcome = 0) :
    Possible setup (outcomeOf after) := by
  intro codename q hknown
  obtain ⟨e, he, rfl, rfl⟩ := exists_of_outcomeOf hknown
  exact h e he

theorem Extends.later (h : Extends setup before after) (hproducts : ProductsLast setup)
    (hgate : setup.dataset.gate setup.compile = some g) :
    g.Later (outcomeOf before) (outcomeOf after) :=
  later_of_keeps hproducts hgate
    (possible_of_forall fun e he => h.possible e (h.added.subset he))
    (possible_of_forall h.possible) (keeps_outcomeOf h.added)

end Added

/-- Neither gate holds a testcase back. -/
def Released (setup : GradingSetup PyFloat) (evaluations : List (Evaluation PyFloat))
    (codename : String) : Prop :=
  heldByDependencies setup.compile setup.dataset evaluations codename = false ∧
    heldByScreening setup.twoPhase setup.dataset evaluations codename = false

section Released

variable {setup : GradingSetup PyFloat} {g : SubtaskGate} {before after : List (Evaluation PyFloat)}
  {codename : String}

theorem heldByDependencies_eq (hgate : setup.dataset.gate setup.compile = some g) :
    heldByDependencies setup.compile setup.dataset before codename =
      !g.releasable codename (g.statuses (outcomeOf before)) := by
  rw [heldByDependencies, hgate]

theorem Released.later (h : Released setup before codename) (hproducts : ProductsLast setup)
    (hextends : Extends setup before after) : Released setup after codename := by
  obtain ⟨hdependencies, hscreening⟩ := h
  constructor
  · cases hgate : setup.dataset.gate setup.compile with
    | none => rw [heldByDependencies, hgate]
    | some g =>
        rw [heldByDependencies_eq hgate, Bool.not_eq_false'] at hdependencies ⊢
        exact (built_of_gate_some hgate).releasable_later (hextends.later hproducts hgate)
          hdependencies
  · unfold heldByScreening at hscreening ⊢
    rw [Bool.and_eq_false_iff] at hscreening ⊢
    refine hscreening.imp id fun hpassed => ?_
    rw [decide_eq_false_iff_not, not_not] at hpassed ⊢
    have hdecided : groupScreeningStatus setup.dataset.codenames (outcomesForScreening before)
        (groupOf codename) ≠ some .pending := by
      intro hpending
      rw [hpending] at hpassed
      cases hpassed
    rw [screening_later (keeps_screening hextends.added) hdecided rfl]
    exact hpassed

/-- Two-phase grading does not skip what was released. -/
theorem Released.not_advanceTwoPhase (h : Released setup before codename)
    (htwoPhase : setup.twoPhase = true) {e : Evaluation PyFloat}
    (he : e ∈ advanceTwoPhase setup.dataset before) (hcodename : e.codename = codename) :
    e ∈ before := by
  rw [advanceTwoPhase_eq] at he
  refine (List.mem_append.1 he).resolve_right fun hskip => ?_
  obtain ⟨c, hc, rfl⟩ := List.mem_map.1 hskip
  change c = codename at hcodename
  subst hcodename
  have hcond := (List.mem_filter.1 hc).2
  simp only [Bool.and_eq_true, Bool.not_eq_true', decide_eq_true_eq] at hcond
  have hscreening := h.2
  rw [heldByScreening, htwoPhase, hcond.1.2, hcond.2] at hscreening
  cases hscreening

/-- The dependency gate does not skip what was released. -/
theorem Released.not_advanceDependencies (h : Released setup before codename)
    {e : Evaluation PyFloat} (he : e ∈ advanceDependencies setup.compile setup.dataset before)
    (hcodename : e.codename = codename) : e ∈ before := by
  cases hgate : setup.dataset.gate setup.compile with
  | none =>
      rw [advanceDependencies, hgate] at he
      exact he
  | some g =>
      rw [advanceDependencies_eq hgate] at he
      refine (List.mem_append.1 he).resolve_right fun hskip => ?_
      have hskippable := (mem_dependencySkips hskip).2
      have hreleasable := h.1
      rw [heldByDependencies_eq hgate, Bool.not_eq_false', ← hcodename] at hreleasable
      exact hskippable ((built_of_gate_some hgate).not_skippable hreleasable)

end Released

/-! ### The run -/

/-- A submission result, and the testcases that its operations have ever asked for. -/
structure GateRun where
  result : SubmissionResult PyFloat
  yielded : List String
  deriving DecidableEq

inductive GateAction
  /-- The operations of the submission are listed. -/
  | getOperations
  /-- An evaluation is written, unless there is one already. -/
  | evaluate (codename : String) (text : List String) (time : Option ℚ) (memory : Option ℤ)
  | advanceTwoPhase
  | advanceDependencies
  /-- Anything else of the result changes. -/
  | update (compilationOutcome : Option CompilationOutcome) (compilationTries : Nat)
      (evaluated : Bool) (evaluationTries : Nat)
  deriving DecidableEq

namespace GateRun

/-- The testcases that the submission's operations ask for now. -/
def yields (setup : GradingSetup PyFloat) (result : SubmissionResult PyFloat) : List String :=
  (submissionGetOperations setup.compile setup.twoPhase setup.dataset (some result)
    setup.submission false).filterMap fun operation => operation.1.testcaseCodename

def step (setup : GradingSetup PyFloat) (s : GateRun) : GateAction → Option GateRun
  | .getOperations => some { s with yielded := s.yielded ++ yields setup s.result }
  | .evaluate codename text time memory =>
      if (outcomeOf s.result.evaluations codename).isNone then
        some { s with result := { s.result with evaluations := s.result.evaluations ++
          [⟨codename, setup.outcome codename, text, time, memory⟩] } }
      else some s
  | .advanceTwoPhase =>
      if setup.twoPhase then
        some { s with result := { s.result with
          evaluations := Grading.advanceTwoPhase setup.dataset s.result.evaluations } }
      else none
  | .advanceDependencies =>
      some { s with result := { s.result with
        evaluations :=
          Grading.advanceDependencies setup.compile setup.dataset
            s.result.evaluations } }
  | .update compilationOutcome compilationTries evaluated evaluationTries =>
      some { s with result := { s.result with
        compilationOutcome, compilationTries, evaluated, evaluationTries } }

end GateRun

/-- The runs of a submission result to which evaluations are added in any order. -/
def gateMachine (setup : GradingSetup PyFloat) : Machine GateRun GateAction where
  init := fun s => s.yielded = [] ∧ s.result.evaluations = []
  step := GateRun.step setup

namespace GateRun

variable {setup : GradingSetup PyFloat} {s t : GateRun}

/-- The operations only ask for testcases that both gates release. -/
theorem released_of_mem_yields {result : SubmissionResult PyFloat} {codename : String}
    (h : codename ∈ yields setup result) : Released setup result.evaluations codename := by
  obtain ⟨operation, hoperation, hcodename⟩ := List.mem_filterMap.1 h
  rw [submissionGetOperations] at hoperation
  split at hoperation
  · rw [List.mem_singleton] at hoperation
    subst hoperation
    cases hcodename
  · dsimp only at hoperation
    split at hoperation
    · obtain ⟨c, hc, rfl⟩ := List.mem_map.1 hoperation
      cases hcodename
      have hcond := (mem_testcasesToEvaluate.1 hc).2
      exact ⟨hcond.2.1, hcond.2.2⟩
    · cases hoperation

/-- A step only adds evaluations, with the outcomes of the testcases or of skips. -/
theorem extends_of_step {a : GateAction}
    (h : ∀ e ∈ s.result.evaluations, e.outcome = setup.outcome e.codename ∨ e.outcome = 0)
    (hstep : s.step setup a = some t) :
    Extends setup s.result.evaluations t.result.evaluations := by
  have hsame : Extends setup s.result.evaluations s.result.evaluations :=
    ⟨List.prefix_refl _, h⟩
  have hmore : ∀ more : List (Evaluation PyFloat),
      (∀ e ∈ more, e.outcome = setup.outcome e.codename ∨ e.outcome = 0) →
      Extends setup s.result.evaluations (s.result.evaluations ++ more) := by
    intro more hmore
    refine ⟨List.prefix_append _ _, fun e he => ?_⟩
    exact (List.mem_append.1 he).elim (h e) (hmore e)
  cases a with
  | getOperations =>
      cases hstep
      exact hsame
  | evaluate codename text time memory =>
      simp only [step] at hstep
      split at hstep
      · cases hstep
        refine hmore _ fun e he => ?_
        rw [List.mem_singleton] at he
        rw [he]
        exact .inl rfl
      · cases hstep
        exact hsame
  | advanceTwoPhase =>
      simp only [step] at hstep
      split at hstep
      · cases hstep
        refine hmore _ fun e he => ?_
        obtain ⟨codename, -, rfl⟩ := List.mem_map.1 he
        exact .inr rfl
      · cases hstep
  | advanceDependencies =>
      cases hstep
      cases hgate : setup.dataset.gate setup.compile with
      | none =>
          simp only [Grading.advanceDependencies, hgate]
          exact hsame
      | some g =>
          rw [advanceDependencies_eq hgate]
          refine hmore _ fun e he => ?_
          obtain ⟨codename, -, hskip⟩ := List.mem_filterMap.1 he
          obtain ⟨dependency, -, rfl⟩ := Option.map_eq_some_iff.1 hskip
          exact .inr rfl
  | update =>
      cases hstep
      exact hsame

/-- What was released so far still is, and every outcome is what its testcase gives or a skip. -/
structure Sound (setup : GradingSetup PyFloat) (s : GateRun) : Prop where
  possible : ∀ e ∈ s.result.evaluations, e.outcome = setup.outcome e.codename ∨ e.outcome = 0
  released : ∀ codename ∈ s.yielded, Released setup s.result.evaluations codename

theorem Sound.step {a : GateAction} (h : s.Sound setup) (hproducts : ProductsLast setup)
    (hstep : s.step setup a = some t) : t.Sound setup := by
  have hextends := extends_of_step h.possible hstep
  refine ⟨hextends.possible, fun codename hcodename => ?_⟩
  have hyielded : codename ∈ s.yielded ∨ codename ∈ yields setup s.result := by
    cases a with
    | getOperations =>
        cases hstep
        exact List.mem_append.1 hcodename
    | evaluate =>
        simp only [GateRun.step] at hstep
        split at hstep <;> cases hstep <;> exact Or.inl hcodename
    | advanceTwoPhase =>
        simp only [GateRun.step] at hstep
        split at hstep
        · cases hstep
          exact Or.inl hcodename
        · cases hstep
    | advanceDependencies =>
        cases hstep
        exact Or.inl hcodename
    | update =>
        cases hstep
        exact Or.inl hcodename
  rcases hyielded with hold | hnew
  · exact (h.released codename hold).later hproducts hextends
  · exact (released_of_mem_yields hnew).later hproducts hextends

theorem sound_of_reachable (hproducts : ProductsLast setup)
    (h : (gateMachine setup).Reachable s) : s.Sound setup := by
  refine Machine.Reachable.invariant ?_ (fun _ _ _ hs hstep => hs.step hproducts hstep) h
  rintro start ⟨hyielded, hevaluations⟩
  constructor
  · rw [hevaluations]
    intro e he
    cases he
  · rw [hyielded]
    intro codename hcodename
    cases hcodename

/-- Along a path evaluations are only added. -/
theorem Sound.path (h : s.Sound setup) (hproducts : ProductsLast setup)
    (hpath : (gateMachine setup).Path (fun _ _ => True) s t) :
    t.Sound setup ∧ Extends setup s.result.evaluations t.result.evaluations := by
  induction hpath with
  | refl => exact ⟨h, List.prefix_refl _, h.possible⟩
  | step _ _ hstep ih =>
      have hextends := extends_of_step ih.1.possible hstep
      exact ⟨ih.1.step hproducts hstep, ih.2.added.trans hextends.added, hextends.possible⟩

end GateRun

/-- The last subtask depends on both others, and nothing gives points. -/
def joinedSetup : GradingSetup PyFloat where
  compile := fun _ => .error .typeError
  twoPhase := false
  dataset := {
    id := 1
    active := true
    testcases := [("000", true), ("001", true), ("002", true)]
    distinct := by decide
    scoreType := .groupMin
    scoreTypeParameters := .list [
      .list [.int 40, .list [.str "000"]],
      .list [.int 30, .list [.str "001"]],
      .dict [("max_score", .int 30), ("testcases", .list [.str "002"]),
        ("depends_on", .list [.int 0, .int 1])]]
    scorePrecision := 0
    timeLimit := none }
  submission := ⟨1, 0⟩
  outcome := fun _ => ⟨0, PyFloat.zero_nonpos⟩

def joinedGate : SubtaskGate :=
  (joinedSetup.dataset.gate joinedSetup.compile).get (by decide +kernel)

/-- The second subtask has failed; the testcases of both were asked for. -/
def secondFailed : GateRun :=
  ((gateMachine joinedSetup).exec ⟨compiledResult, []⟩
    [.getOperations, .evaluate "001" [] none none]).get (by decide +kernel)

/-- The first subtask has failed too. -/
def bothFailed : GateRun :=
  ((gateMachine joinedSetup).exec secondFailed [.evaluate "000" [] none none]).get
    (by decide +kernel)

theorem secondFailed_reachable : (gateMachine joinedSetup).Reachable secondFailed :=
  Machine.reachable_of_exec ⟨rfl, rfl⟩ (Option.some_get _).symm

theorem bothFailed_path :
    (gateMachine joinedSetup).Path (fun _ _ => True) secondFailed bothFailed :=
  Machine.path_of_exec (fun _ _ _ => trivial) (Option.some_get _).symm

end Grading
end ContestManagement
