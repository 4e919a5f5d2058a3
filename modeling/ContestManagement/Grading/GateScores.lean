import ContestManagement.Grading.GateInvariant
import ContestManagement.Grading.ScoreFacts

/-!
# Gates do not change scores

A gated run that has an evaluation for every testcase is compared with a result in
which every testcase was really evaluated.  A subtask without a dead dependency has
the same fraction in both; the others are zeroed in both.
-/

namespace ContestManagement
namespace Grading

open Lib

variable {setup : GradingSetup} {st : ScoreTypeGroup} {targets : List (List String)}
  {gated real : List Evaluation}

/-- The outcome of a testcase that is evaluated. -/
def gatedOutcome (evaluations : List Evaluation) (codename : String) : ℚ :=
  (outcomeOf evaluations codename).getD 0

/-- A complete gated result beside a complete real one. -/
structure Compared (setup : GradingSetup) (st : ScoreTypeGroup) (targets : List (List String))
    (gated real : List Evaluation) : Prop where
  graded : Graded setup st targets
  inside : ∀ target ∈ targets, ∀ c ∈ target, c ∈ setup.dataset.codenames
  explained : AllExplained setup st targets gated
  complete : ∀ c ∈ setup.dataset.codenames, outcomeOf gated c ≠ none
  really : ∀ c ∈ setup.dataset.codenames, outcomeOf real c = some (setup.outcome c : ℚ)

namespace Compared

theorem inside_at (h : Compared setup st targets gated real) (index : Nat) :
    ∀ c ∈ targets.getD index [], c ∈ setup.dataset.codenames := by
  intro c hc
  by_cases hindex : index < targets.length
  · have htarget : targets.getD index [] ∈ targets := by simp [hindex]
    exact h.inside _ htarget c hc
  · rw [List.getD_eq_getElem?_getD, List.getElem?_eq_none (by omega)] at hc
    cases hc

theorem outcomeOf_gated (h : Compared setup st targets gated real) {c : String}
    (hc : c ∈ setup.dataset.codenames) : outcomeOf gated c = some (gatedOutcome gated c) := by
  obtain ⟨q, hq⟩ := Option.ne_none_iff_exists'.1 (h.complete c hc)
  rw [gatedOutcome, hq, Option.getD_some]

theorem explained_gated (h : Compared setup st targets gated real) {c : String}
    (hc : c ∈ setup.dataset.codenames) :
    ∃ marked, Explained setup st targets c (gatedOutcome gated c) marked :=
  h.explained.outcome (h.outcomeOf_gated hc)

theorem ownFraction_gated (h : Compared setup st targets gated real) (index : Nat)
    (parameter : PyValue) :
    st.ownFraction gated parameter (targets.getD index []) =
      reduce st.kind ((targets.getD index []).map (gatedOutcome gated)) parameter :=
  ownFraction_eq fun c hc => h.outcomeOf_gated (h.inside_at index c hc)

theorem ownFraction_real (h : Compared setup st targets gated real) (index : Nat)
    (parameter : PyValue) :
    st.ownFraction real parameter (targets.getD index []) =
      reduce st.kind (realOutcomes setup (targets.getD index [])) parameter :=
  ownFraction_eq fun c hc => h.really c (h.inside_at index c hc)

/-- A gated outcome is the real one or zero. -/
theorem skipsSome (h : Compared setup st targets gated real) (index : Nat) :
    SkipsSome (realOutcomes setup (targets.getD index []))
      ((targets.getD index []).map (gatedOutcome gated)) := by
  rw [SkipsSome, realOutcomes, List.forall₂_map_left_iff, List.forall₂_map_right_iff,
    List.forall₂_same]
  intro c hc
  obtain ⟨marked, hexplained⟩ := h.explained_gated (h.inside_at index c hc)
  cases hexplained with
  | real same => exact .inl same
  | screened zero => exact .inr zero
  | skipped zero => exact .inr zero

theorem gated_nonneg (h : Compared setup st targets gated real) (index : Nat) :
    ∀ x ∈ (targets.getD index []).map (gatedOutcome gated), 0 ≤ x := by
  intro x hx
  obtain ⟨c, hc, rfl⟩ := List.mem_map.1 hx
  obtain ⟨marked, hexplained⟩ := h.explained_gated (h.inside_at index c hc)
  exact hexplained.nonneg

/-- Without a dead dependency the gates do not change the fraction of a subtask. -/
theorem fraction_eq (h : Compared setup st targets gated real) {index : Nat}
    (hindex : index < targets.length) {parameter : PyValue} {q q' : ℚ}
    (hreal : reduce st.kind (realOutcomes setup (targets.getD index [])) parameter = .ok q)
    (hgated : reduce st.kind ((targets.getD index []).map (gatedOutcome gated)) parameter = .ok q')
    (halive : ∀ number ∈ dependenciesOf st.dependencies index, ¬Dead setup st targets number) :
    q' = q := by
  by_cases hsame : ∀ c ∈ targets.getD index [], gatedOutcome gated c = setup.outcome c
  · have hlists : (targets.getD index []).map (gatedOutcome gated) =
        realOutcomes setup (targets.getD index []) := List.map_congr_left hsame
    rw [hlists, hreal] at hgated
    cases hgated
    rfl
  · -- Something was skipped, so that the subtask is worth nothing in both results.
    simp only [not_forall] at hsame
    obtain ⟨c, hc, hne⟩ := hsame
    obtain ⟨marked, hexplained⟩ := h.explained_gated (h.inside_at index c hc)
    cases hexplained with
    | real same => exact absurd same hne
    | skipped zero mark gated blocked =>
        obtain ⟨number, hnumber, hdead⟩ := blocked index hindex hc
        exact absurd hdead (halive number hnumber)
    | screened zero unmarked plain failed =>
        obtain ⟨z, hz, hzero⟩ := failed index hindex hc
        have hq : q = 0 := by
          refine reduce_eq_zero_of_fatal (realOutcomes_nonneg setup _) hreal
            (List.mem_map.2 ⟨z, hz, rfl⟩) (fatal_of_nonpos hreal ?_)
          exact hzero.le
        have hq' : q' = 0 :=
          reduce_eq_zero_of_fatal (h.gated_nonneg index) hgated
            (List.mem_map.2 ⟨c, hc, rfl⟩) (fatal_of_nonpos hgated (le_of_eq zero))
        rw [hq, hq']

end Compared

/-! ### The zeroed subtasks -/

/-- The fraction of one subtask among those computed for all. -/
theorem fraction_at {evaluations : List Evaluation} {fractions : List ℚ}
    (h : (targets.zip st.parameters).mapM
      (fun entry => st.ownFraction evaluations entry.2 entry.1) = .ok fractions)
    {index : Nat} (hindex : index < targets.length) (hindex' : index < st.parameters.length) :
    st.ownFraction evaluations (st.parameters.getD index .none) (targets.getD index []) =
      .ok (fractions.getD index 0) := by
  have hall := mapM_eq_ok_iff.1 h
  have hlength := length_of_mapM_eq_ok h
  rw [List.length_zip] at hlength
  have hzip : index < (targets.zip st.parameters).length := by
    rw [List.length_zip]
    omega
  have hfraction : index < fractions.length := by omega
  have hat := hall.get hzip hfraction
  simp only [List.get_eq_getElem, List.getElem_zip] at hat
  simpa [hindex, hindex', hfraction] using hat

/-- A rule of `zeroed_by` blames a dependency exactly when one is dead. -/
theorem zeroedRule_spec {fractions : Nat → ℚ} {found : Nat → ℚ × Option Nat} {index : Nat}
    (hfound : found index = zeroedRule fractions st.dependencies found index)
    (hdeps : ∀ number ∈ dependenciesOf st.dependencies index,
      ((found number).1 ≤ 0 ↔ Dead setup st targets number)) :
    (∃ least ∈ dependenciesOf st.dependencies index, Dead setup st targets least ∧
      found index = (0, some least)) ∨
    (∀ number ∈ dependenciesOf st.dependencies index, ¬Dead setup st targets number) ∧
      found index = (fractions index, none) := by
  rcases zeroedRule_cases fractions st.dependencies found index with
    ⟨least, heq, ⟨hleast, hfailed⟩, -⟩ | ⟨halive, heq⟩
  · exact .inl ⟨least, hleast, (hdeps least hleast).1 hfailed, hfound.trans heq⟩
  · refine .inr ⟨?_, hfound.trans heq⟩
    intro number hnumber hdead
    exact halive number hnumber ((hdeps number hnumber).2 hdead)

/-- Along the order: the fraction in force is not positive exactly for the dead subtasks. -/
theorem found_nonpos_iff_dead {fractions : Nat → ℚ} {found : Nat → ℚ × Option Nat}
    {order : List Nat} (htopological : Topological (dependenciesOf st.dependencies) order)
    (hfound : ∀ index ∈ order, found index = zeroedRule fractions st.dependencies found index)
    (hown : ∀ index ∈ order,
      (∀ number ∈ dependenciesOf st.dependencies index, ¬Dead setup st targets number) →
        (fractions index ≤ 0 ↔ Dead setup st targets index)) :
    ∀ index ∈ order, ((found index).1 ≤ 0 ↔ Dead setup st targets index) := by
  refine htopological.induction ?_
  intro index hindex ih
  rcases zeroedRule_spec (hfound index hindex) ih with
    ⟨least, hleast, hdead, hvalue⟩ | ⟨halive, hvalue⟩
  · rw [hvalue]
    exact ⟨fun _ => .dependency hleast hdead, fun _ => le_refl 0⟩
  · rw [hvalue]
    exact hown index hindex halive

/-- Without a dead dependency a subtask is dead exactly when its own fraction is not positive. -/
theorem nonpos_iff_dead {index : Nat} {fraction : ℚ}
    (hown : reduce st.kind (realOutcomes setup (targets.getD index []))
      (st.parameters.getD index .none) = .ok fraction)
    (halive : ∀ number ∈ dependenciesOf st.dependencies index, ¬Dead setup st targets number) :
    fraction ≤ 0 ↔ Dead setup st targets index := by
  constructor
  · intro hle
    exact .own hown hle
  · intro hdead
    cases hdead with
    | own reduced nonpos =>
        rw [hown] at reduced
        cases reduced
        exact nonpos
    | dependency depends dead => exact absurd dead (halive _ depends)

/-- The same dependencies are blamed, and the others are alive. -/
theorem Compared.zeroed_eq (h : Compared setup st targets gated real)
    {zeroed zeroed' : Nat → Option Nat} (hzeroed : st.zeroed real targets = .ok zeroed)
    (hzeroed' : st.zeroed gated targets = .ok zeroed') :
    ∀ index < targets.length, zeroed' index = zeroed index ∧
      (zeroed index = none → ∀ number ∈ dependenciesOf st.dependencies index,
        ¬Dead setup st targets number) := by
  obtain ⟨haccepted, hpublic⟩ := accepted_of_create h.graded.scoreType
  have hlength : targets.length = st.parameters.length :=
    length_retrieveTargetTestcases h.graded.retrieved
  rw [ScoreTypeGroup.zeroed] at hzeroed hzeroed'
  split at hzeroed
  · rename_i hany
    rw [if_pos hany] at hzeroed'
    obtain ⟨fractions, hfractions, hzeroed⟩ := bind_eq_ok_iff.1 hzeroed
    obtain ⟨fractions', hfractions', hzeroed'⟩ := bind_eq_ok_iff.1 hzeroed'
    obtain ⟨found, hfound, hsecond⟩ := zeroedBy_spec hzeroed
    obtain ⟨found', hfound', hsecond'⟩ := zeroedBy_spec hzeroed'
    obtain ⟨order, horder⟩ := haccepted.ordered
    obtain ⟨htopological, hmem⟩ := topologicalOrder_spec horder
    have hlt : ∀ index ∈ order, index < targets.length := by
      intro index hindex
      rw [hlength, ← haccepted.length_dependencies]
      exact (hmem index).1 hindex
    have hown : ∀ index ∈ order,
        (∀ number ∈ dependenciesOf st.dependencies index, ¬Dead setup st targets number) →
          (fractions.getD index 0 ≤ 0 ↔ Dead setup st targets index) ∧
            (fractions'.getD index 0 ≤ 0 ↔ Dead setup st targets index) := by
      intro index hindex halive
      have hreal := fraction_at hfractions (hlt index hindex) (hlength ▸ hlt index hindex)
      have hgated := fraction_at hfractions' (hlt index hindex) (hlength ▸ hlt index hindex)
      rw [h.ownFraction_real] at hreal
      rw [h.ownFraction_gated] at hgated
      rw [h.fraction_eq (hlt index hindex) hreal hgated halive]
      exact ⟨nonpos_iff_dead hreal halive, nonpos_iff_dead hreal halive⟩
    -- Both sweeps agree with `Dead`, and so with each other.
    have hdead := found_nonpos_iff_dead htopological
      (fun index hindex => hfound index ((hmem index).1 hindex))
      (fun index hindex halive => (hown index hindex halive).1)
    have hdead' := found_nonpos_iff_dead htopological
      (fun index hindex => hfound' index ((hmem index).1 hindex))
      (fun index hindex halive => (hown index hindex halive).2)
    intro index hindex
    have hindex' : index ∈ order := by
      rw [hmem, haccepted.length_dependencies, ← hlength]
      exact hindex
    have hreads : ∀ number ∈ dependenciesOf st.dependencies index, number ∈ order :=
      fun number hnumber => htopological.reads_mem hindex' hnumber
    have hfoundAt := hfound index ((hmem index).1 hindex')
    have hfoundAt' := hfound' index ((hmem index).1 hindex')
    rw [hsecond index, hsecond' index]
    constructor
    · rw [hfoundAt, hfoundAt']
      apply zeroedRule_congr
      intro number hnumber
      rw [hdead number (hreads number hnumber), hdead' number (hreads number hnumber)]
    · intro hnone
      rcases zeroedRule_spec hfoundAt fun number hnumber => hdead number (hreads number hnumber) with
        ⟨least, -, -, hvalue⟩ | ⟨halive, -⟩
      · rw [hvalue] at hnone
        cases hnone
      · exact halive
  · rename_i hany
    rw [if_neg hany] at hzeroed'
    cases hzeroed
    cases hzeroed'
    intro index hindex
    refine ⟨rfl, ?_⟩
    intro _ number hnumber
    simp only [List.any_eq_true, decide_eq_true_eq, not_exists, not_and, not_not] at hany
    rw [dependenciesOf, List.getD_eq_getElem?_getD] at hnumber
    cases hget : st.dependencies[index]? with
    | none =>
        rw [hget] at hnumber
        cases hnumber
    | some numbers =>
        rw [hget, Option.getD_some, hany numbers (List.mem_of_getElem? hget)] at hnumber
        cases hnumber

/-! ### The scores -/

/-- The result that scoring reads, with the given evaluations. -/
def GradingSetup.scoredResult (setup : GradingSetup) (evaluations : List Evaluation) :
    ScoredResult where
  evaluated := true
  evaluations := evaluations
  timeLimit := setup.dataset.timeLimit
  scorePrecision := setup.dataset.scorePrecision

theorem Compared.sameScores (h : Compared setup st targets gated real) {r r' : ScoreResult}
    (hreal : st.computeScore setup.compile (setup.scoredResult real) = .ok r)
    (hgated : st.computeScore setup.compile (setup.scoredResult gated) = .ok r') :
    r'.SameScores r := by
  obtain ⟨-, hpublic⟩ := accepted_of_create h.graded.scoreType
  have hretrieved := h.graded.retrieved
  rw [Dataset.codenames, ← hpublic] at hretrieved
  obtain ⟨found, zeroed, entries, hfound, hzeroed, hentries, rfl⟩ :=
    (computeScore_eq_ok_iff rfl).1 hreal
  obtain ⟨found', zeroed', entries', hfound', hzeroed', hentries', rfl⟩ :=
    (computeScore_eq_ok_iff rfl).1 hgated
  rw [hretrieved] at hfound hfound'
  cases hfound
  cases hfound'
  refine sameScores_of_summaries ?_
  have hpairs := forall₂_of_mapM_eq_ok hentries' hentries
  rw [← List.forall₂_eq_eq_eq, List.forall₂_map_left_iff, List.forall₂_map_right_iff]
  refine hpairs.imp ?_
  rintro entry' entry ⟨⟨⟨parameter, target⟩, index⟩, hplace, hentry', hentry⟩
  obtain ⟨hindex, hindex', hparameter, htarget⟩ := mem_zipIdx_subtasks hplace
  obtain ⟨own, maxScore, hown, hmaxScore, hall, hsummary⟩ := scoreSubtask_spec hentry
  obtain ⟨own', maxScore', hown', hmaxScore', hall', hsummary'⟩ := scoreSubtask_spec hentry'
  rw [hmaxScore] at hmaxScore'
  rw [hall, Except.ok.injEq] at hall'
  cases hmaxScore'
  obtain ⟨hsame, halive⟩ := h.zeroed_eq hzeroed hzeroed' index hindex
  simp only at hparameter htarget hown hown'
  subst hparameter htarget
  rw [hsummary, hsummary', hsame, hall']
  -- Where nothing zeroes the subtask its own fraction counts.
  cases hzero : zeroed index with
  | some number => rfl
  | none =>
      have hfraction : own' = own := by
        have hown := h.ownFraction_real index (st.parameters.getD index .none) ▸ hown
        have hown' := h.ownFraction_gated index (st.parameters.getD index .none) ▸ hown'
        exact h.fraction_eq hindex hown hown' (halive hzero)
      rw [hfraction]
      rfl

/-- A subtask that can be scored from the real outcomes can be scored from the gated
ones, and conversely when its parameter can be read. -/
theorem Compared.scorable_iff (h : Compared setup st targets gated real) {index : Nat}
    {parameter : PyValue} :
    (SubtaskScorable st real parameter (targets.getD index []) →
      SubtaskScorable st gated parameter (targets.getD index [])) ∧
    (Readable st.kind parameter → SubtaskScorable st gated parameter (targets.getD index []) →
      SubtaskScorable st real parameter (targets.getD index [])) := by
  constructor
  · rintro ⟨⟨own, hown⟩, houtcomes, hflags, hmaxScore⟩
    rw [h.ownFraction_real] at hown
    refine ⟨?_, ?_, hflags, hmaxScore⟩
    · rw [h.ownFraction_gated]
      exact reduce_ok_of_skips (h.skipsSome index) hown
    · intro c hc
      have hmem := h.inside_at index c hc
      obtain ⟨outcome, hout, text, htext⟩ := houtcomes c hc
      rw [h.really c hmem, Option.some.injEq] at hout
      subst hout
      refine ⟨_, h.outcomeOf_gated hmem, ?_⟩
      obtain ⟨marked, hexplained⟩ := h.explained_gated hmem
      cases hexplained with
      | real same => exact ⟨text, same ▸ htext⟩
      | screened zero => exact zero ▸ getPublicOutcome_ok_of_skip htext
      | skipped zero => exact zero ▸ getPublicOutcome_ok_of_skip htext
  · rintro hreadable ⟨⟨own, hown⟩, houtcomes, hflags, hmaxScore⟩
    rw [h.ownFraction_gated] at hown
    refine ⟨?_, ?_, hflags, hmaxScore⟩
    · rw [h.ownFraction_real]
      by_cases hnil : targets.getD index [] = []
      · rw [hnil] at hown ⊢
        exact ⟨own, hown⟩
      · refine reduce_ok_of_readable hreadable ?_
        rw [realOutcomes, ne_eq, List.map_eq_nil_iff]
        exact hnil
    · intro c hc
      exact ⟨_, h.really c (h.inside_at index c hc), getPublicOutcome_ok_of_readable hreadable _⟩

/-- The place of a subtask in the lists of parameters and targets. -/
theorem exists_index_of_mem_zip {parameters : List PyValue} {targets : List (List String)}
    {entry : PyValue × List String} (h : entry ∈ parameters.zip targets) :
    ∃ index, entry.2 = targets.getD index [] := by
  obtain ⟨index, hindex, rfl⟩ := List.getElem_of_mem h
  rw [List.length_zip, lt_min_iff] at hindex
  exact ⟨index, by simp [hindex.2]⟩

/-- Once every testcase has an evaluation, a gated run gives the scores that really
evaluating every testcase gives.  Scoring the real outcomes may raise only where the
threshold of a subtask is no number; the gated run may then still be scored. -/
theorem gates_keep_scores (setup : GradingSetup) (st : ScoreTypeGroup)
    (targets : List (List String)) (hgraded : Graded setup st targets)
    (hinside : ∀ target ∈ targets, ∀ c ∈ target, c ∈ setup.dataset.codenames)
    (s : GradingRun) (hs : (gradingMachine setup).Reachable s)
    (hcomplete : ∀ c ∈ setup.dataset.codenames, outcomeOf s.result.evaluations c ≠ none)
    (real : List Evaluation)
    (hreal : ∀ c ∈ setup.dataset.codenames, outcomeOf real c = some (setup.outcome c : ℚ)) :
    (∀ r, st.computeScore setup.compile (setup.scoredResult real) = .ok r →
      ∃ r', st.computeScore setup.compile (setup.scoredResult s.result.evaluations) = .ok r' ∧
        r'.SameScores r) ∧
    ((∀ parameter ∈ st.parameters, Readable st.kind parameter) →
      ∀ r', st.computeScore setup.compile (setup.scoredResult s.result.evaluations) = .ok r' →
        ∃ r, st.computeScore setup.compile (setup.scoredResult real) = .ok r ∧
          r'.SameScores r) := by
  have h : Compared setup st targets s.result.evaluations real :=
    ⟨hgraded, hinside, (GradingRun.inv_of_reachable hgraded hs).explained, hcomplete, hreal⟩
  obtain ⟨haccepted, hpublic⟩ := accepted_of_create hgraded.scoreType
  have hretrieved := hgraded.retrieved
  rw [Dataset.codenames, ← hpublic] at hretrieved
  have hok : ∀ evaluations : List Evaluation,
      (∃ r, st.computeScore setup.compile (setup.scoredResult evaluations) = .ok r) ↔
        ∀ entry ∈ st.parameters.zip targets,
          SubtaskScorable st evaluations entry.1 entry.2 :=
    fun evaluations => computeScore_ok_iff rfl hretrieved haccepted.ordered
  constructor
  · intro r hr
    obtain ⟨r', hr'⟩ : ∃ r', st.computeScore setup.compile
        (setup.scoredResult s.result.evaluations) = .ok r' := by
      rw [hok]
      intro entry hentry
      obtain ⟨index, htarget⟩ := exists_index_of_mem_zip hentry
      have hscorable := (hok real).1 ⟨r, hr⟩ entry hentry
      rw [htarget] at hscorable ⊢
      exact h.scorable_iff.1 hscorable
    exact ⟨r', hr', h.sameScores hr hr'⟩
  · intro hreadable r' hr'
    obtain ⟨r, hr⟩ : ∃ r, st.computeScore setup.compile (setup.scoredResult real) = .ok r := by
      rw [hok]
      intro entry hentry
      obtain ⟨index, htarget⟩ := exists_index_of_mem_zip hentry
      have hscorable := (hok s.result.evaluations).1 ⟨r', hr'⟩ entry hentry
      rw [htarget] at hscorable ⊢
      exact h.scorable_iff.2 (hreadable _ (List.of_mem_zip hentry).1) hscorable
    exact ⟨r, hr, h.sameScores hr hr'⟩

/-- Two subtasks of two testcases each, the second of which depends on the first,
and a third one.  The screening of the first one fails. -/
def screenedSetup : GradingSetup where
  compile := fun _ => .error .typeError
  twoPhase := true
  dataset := {
    id := 1
    active := true
    testcases := [("s1-00-sample", true), ("s1-01-x", false), ("s2-00-sample", true),
      ("s2-01-x", false), ("s3-00-x", true)]
    distinct := by decide
    scoreType := .groupMin
    scoreTypeParameters := .list [
      .list [.int 40, .list [.str "s1-00-sample", .str "s1-01-x"]],
      .dict [("max_score", .int 50), ("testcases", .list [.str "s2-00-sample", .str "s2-01-x"]),
        ("depends_on", .list [.int 0])],
      .list [.int 10, .list [.str "s3-00-x"]]]
    scorePrecision := 2
    timeLimit := some 1 }
  submission := ⟨1, 0⟩
  outcome := fun codename => if codename = "s1-00-sample" then 0 else 1

/-- The score type of the example. -/
def screenedScoreType : ScoreTypeGroup :=
  (screenedSetup.dataset.scoreTypeObject screenedSetup.compile).toOption.get (by decide +kernel)

/-- Only the first screening testcase and the third subtask are evaluated. -/
def screenedActions : List GradingAction :=
  [.enqueue, .evaluate "s1-00-sample" [] none none, .advanceTwoPhase,
    .evaluate "s3-00-x" [] none none, .advanceDependencies]

theorem gates_keep_scores_screened :
    ∃ s r r', (gradingMachine screenedSetup).exec ⟨compiledResult, []⟩ screenedActions = some s ∧
      s.result.evaluations.map Evaluation.outcome = [0, 0, 1, 0, 0] ∧
      screenedScoreType.computeScore screenedSetup.compile (screenedSetup.scoredResult
        (screenedSetup.dataset.codenames.map fun codename =>
          ⟨codename, screenedSetup.outcome codename, [], some 1, some 0⟩)) = .ok r ∧
      r.rankingDetails = ["0", "0", "10"] ∧
      screenedScoreType.computeScore screenedSetup.compile
        (screenedSetup.scoredResult s.result.evaluations) = .ok r' ∧
      r'.SameScores r := by
  have hst : screenedSetup.dataset.scoreTypeObject screenedSetup.compile = .ok screenedScoreType :=
    eq_ok_of_toOption (Option.some_get _).symm
  have htargets : retrieveTargetTestcases screenedSetup.compile screenedScoreType.parameters
      screenedSetup.dataset.codenames =
        .ok [["s1-00-sample", "s1-01-x"], ["s2-00-sample", "s2-01-x"], ["s3-00-x"]] :=
    eq_ok_of_toOption (by decide +kernel)
  have hrun : ((gradingMachine screenedSetup).exec ⟨compiledResult, []⟩ screenedActions).map
      (fun s => (s.result.evaluations.map Evaluation.outcome,
        decide (∀ c ∈ screenedSetup.dataset.codenames, outcomeOf s.result.evaluations c ≠ none))) =
          some ([0, 0, 1, 0, 0], true) := by
    decide +kernel
  obtain ⟨s, hs, hvalues⟩ := Option.map_eq_some_iff.1 hrun
  rw [Prod.mk.injEq, decide_eq_true_eq] at hvalues
  have hreal : (screenedScoreType.computeScore screenedSetup.compile (screenedSetup.scoredResult
      (screenedSetup.dataset.codenames.map fun codename =>
        ⟨codename, screenedSetup.outcome codename, [], some 1, some 0⟩))).toOption.map
      ScoreResult.rankingDetails = some ["0", "0", "10"] := by
    decide +kernel
  obtain ⟨r, hr, hranking⟩ := Option.map_eq_some_iff.1 hreal
  have hr := eq_ok_of_toOption hr
  obtain ⟨r', hr', hsame⟩ := (gates_keep_scores screenedSetup screenedScoreType _
    ⟨hst, htargets, fun _ => by decide +kernel⟩ (by decide +kernel) s
    (Machine.reachable_of_exec ⟨rfl, rfl, rfl, rfl⟩ hs) hvalues.2 _
    (by decide +kernel)).1 r hr
  exact ⟨s, r, r', hs, hvalues.1, hr, hranking, hr', hsame⟩

end Grading
end ContestManagement
