import ContestManagement.Grading.GateStability
import ContestManagement.Grading.Zeroing

/-!
# The gate agrees with the scorer

What `SubtaskGate.statuses` says of some outcomes, and what `compute_score` makes of all of them.
-/

namespace ContestManagement
namespace Grading

open Lib
open PyFloat (product)

/-! ## Statuses of complete outcomes -/

/-- Outcomes for all testcases of the subtasks, none of them negative. -/
structure Completed (g : SubtaskGate) (full : String → Option PyFloat) : Prop where
  nonneg : ∀ codename q, full codename = some q → 0 ≤ q
  complete : ∀ index, ∀ codename ∈ g.target index, full codename ≠ none

/-- The fraction of a subtask that counts. -/
def effectiveFraction (fractions : Nat → PyFloat) (zeroed : Nat → Option Nat) (index : Nat) :
    PyFloat :=
  if (zeroed index).isSome then 0 else fractions index

namespace SubtaskGate

/-- The fractions of the subtasks from complete outcomes. -/
def FractionsAt (g : SubtaskGate) (full : String → Option PyFloat) (fractions : Nat → PyFloat) :
    Prop :=
  ∀ index < g.targets.length,
    reduce g.scoreType.kind (g.done full index) (g.parameter index) = .ok (fractions index)

/-- The product of a subtask is at most zero, or it is a number and no selection of the testcases
has a product of at most zero. -/
def SureProduct (g : SubtaskGate) (full : String → Option PyFloat) (index : Nat) : Prop :=
  product (g.done full index) ≤ 0 ∨
    product (g.done full index) ≠ .nan ∧
      ∀ keep : String → Bool, ¬product (((g.target index).filter keep).filterMap full) ≤ 0

variable {g : SubtaskGate} {outcomes full : String → Option PyFloat} {fractions : Nat → PyFloat}

theorem length_done (h : Completed g full) (index : Nat) :
    (g.done full index).length = (g.target index).length := by
  have hcomplete := h.complete index
  unfold done
  generalize g.target index = target at hcomplete ⊢
  induction target with
  | nil => rfl
  | cons codename rest ih =>
      obtain ⟨q, hq⟩ := Option.ne_none_iff_exists'.1 (hcomplete codename (by simp))
      rw [List.filterMap_cons, hq, List.length_cons, List.length_cons,
        ih fun other hother => hcomplete other (by simp [hother])]

/-- What is known early is a selection of the testcases. -/
theorem done_eq_filter (h : Keeps outcomes full) (index : Nat) :
    g.done outcomes index =
      ((g.target index).filter fun codename => (outcomes codename).isSome).filterMap full := by
  rw [done, List.filterMap_filter]
  refine List.filterMap_congr fun codename _ => ?_
  cases hknown : outcomes codename with
  | some q => exact (h codename q hknown).symm
  | none => rfl

theorem ne_nan_of_completed (h : Completed g full) (index : Nat) :
    ∀ x ∈ g.done full index, x ≠ .nan :=
  forall_mem_done (fun codename x hknown => PyFloat.ne_nan_of_nonneg (h.nonneg codename x hknown))
    index

/-- Outcomes up to one are multiplied as the gate assumes. -/
theorem sureProduct_of_inUnit (h : ∀ codename x, full codename = some x → PyFloat.InUnit x)
    (index : Nat) : g.SureProduct full index := by
  have hunit : ∀ x ∈ g.done full index, PyFloat.InUnit x := forall_mem_done h index
  by_cases hnonpos : product (g.done full index) ≤ 0
  · exact .inl hnonpos
  · refine .inr ⟨fun hnan => ?_, fun keep hkept => hnonpos ?_⟩
    · have hself := PyFloat.product_le_of_sublist (List.Sublist.refl _) hunit
      rw [hnan] at hself
      exact hself
    · have hsub : (((g.target index).filter keep).filterMap full).Sublist (g.done full index) :=
        List.Sublist.filterMap full List.filter_sublist
      exact PyFloat.le_trans (PyFloat.product_le_of_sublist hsub hunit) hkept

/-- Nothing is pending when all outcomes are known. -/
theorem Built.not_pending (hbuilt : g.Built) (h : Completed g full) :
    ∀ index < g.targets.length, (g.statuses full index).1 ≠ .pending := by
  refine hbuilt.induction ?_
  intro index hindex ih hpending
  cases hbuilt.statusCase full hindex with
  | blocked least status =>
      rw [status] at hpending
      cases hpending
  | ownFailure status =>
      rw [status] at hpending
      cases hpending
  | passed status =>
      rw [status] at hpending
      cases hpending
  | pending status unblocked notFailed incomplete =>
      obtain ⟨number, hnumber, hpassed⟩ := incomplete (length_done h index)
      cases hstatus : (g.statuses full number).1 with
      | pending => exact ih number hnumber hstatus
      | passed => exact hpassed hstatus
      | failed => exact unblocked number hnumber hstatus

/-- The subtask's own outcomes decide whether it fails by itself. -/
theorem ownFailed_iff_of_fractions (hfractions : g.FractionsAt full fractions) {index : Nat}
    (hindex : index < g.targets.length) :
    g.ownFailed (g.done full index) index = true ↔ fractions index ≤ 0 := by
  have hreduce := hfractions index hindex
  rw [ownFailed_iff_reduce]
  constructor
  · rintro ⟨-, f, hf, hnonpos⟩
    rw [hreduce] at hf
    cases hf
    exact hnonpos
  · intro hnonpos
    refine ⟨fun hnil => ?_, _, hreduce, hnonpos⟩
    -- The only reduction of nothing is that of a threshold, which is one.
    rw [hnil] at hreduce
    cases hkind : g.scoreType.kind with
    | groupMin =>
        rw [hkind] at hreduce
        cases hreduce
    | groupMul =>
        rw [hkind] at hreduce
        cases hreduce
    | groupThreshold =>
        rw [hkind] at hreduce
        obtain ⟨x, hx, -⟩ :=
          (reduce_threshold_nonpos_iff PyFloat.zero_nonpos PyFloat.not_one_nonpos hreduce).1 hnonpos
        cases hx

/-- A subtask has failed exactly when it fails by itself or depends on one that does. -/
theorem Built.failed_iff (hbuilt : g.Built) (h : Completed g full)
    (hfractions : g.FractionsAt full fractions) :
    ∀ index < g.targets.length, (g.statuses full index).1 = .failed ↔
      Fails fractions g.scoreType.dependencies index := by
  refine hbuilt.induction ?_
  intro index hindex ih
  rw [fails_iff, dependsOnFailure_iff]
  cases hbuilt.statusCase full hindex with
  | blocked least status dependency failed =>
      rw [status]
      exact ⟨fun _ => Or.inr ⟨least, dependency, (ih least dependency).1 failed⟩, fun _ => rfl⟩
  | ownFailure status unblocked failed =>
      rw [status]
      exact ⟨fun _ => Or.inl ((ownFailed_iff_of_fractions hfractions hindex).1 failed),
        fun _ => rfl⟩
  | passed status notFailed complete dependencies =>
      rw [status]
      refine ⟨(fun heq => by cases heq), ?_⟩
      rintro (hown | ⟨number, hnumber, hfails⟩)
      · rw [(ownFailed_iff_of_fractions hfractions hindex).2 hown] at notFailed
        cases notFailed
      · have hfailed := (ih number hnumber).2 hfails
        rw [dependencies number hnumber] at hfailed
        cases hfailed
  | pending status => exact absurd (by rw [status]) (hbuilt.not_pending h index hindex)

/-- What blocks a subtask is its least failed dependency. -/
theorem Built.blockedBy_eq (hbuilt : g.Built) (outcomes : String → Option PyFloat) {index : Nat}
    (hindex : index < g.targets.length) : (g.statuses outcomes index).2 =
      ((g.dependenciesOf index).filter fun number =>
        (g.statuses outcomes number).1 = .failed).min? := by
  rw [hbuilt.statuses_eq outcomes hindex, statusRule]
  dsimp only
  split
  · rename_i least hleast
    exact hleast.symm
  · rename_i hnone
    rw [hnone]
    split
    · rfl
    · split <;> rfl

/-! ### Early verdicts -/

/-- The products of all subtasks that count are ones that the gate foresees. -/
def Foreseen (g : SubtaskGate) (full : String → Option PyFloat) (fractions : Nat → PyFloat) : Prop :=
  g.scoreType.kind = .groupMul → ∀ index < g.targets.length,
    ¬DependsOnFailure fractions g.scoreType.dependencies index → g.SureProduct full index

/-- What the gate calls failed early fails in the end. -/
theorem Built.fails_of_failed (hbuilt : g.Built) (h : Completed g full) (hkeeps : Keeps outcomes full)
    (hfractions : g.FractionsAt full fractions) (hforeseen : g.Foreseen full fractions) :
    ∀ index < g.targets.length, (g.statuses outcomes index).1 = .failed →
      Fails fractions g.scoreType.dependencies index := by
  refine hbuilt.induction ?_
  intro index hindex ih hstatus
  cases hbuilt.statusCase outcomes hindex with
  | blocked least status dependency failed =>
      exact fails_iff.2 (.inr (dependsOnFailure_iff.2 ⟨least, dependency, ih least dependency failed⟩))
  | ownFailure status unblocked failed =>
      obtain ⟨-, f, hf, hnonpos⟩ := ownFailed_iff_reduce.1 failed
      have hreduce := hfractions index hindex
      by_cases hkind : g.scoreType.kind = .groupMul
      · by_cases hdepends : DependsOnFailure fractions g.scoreType.dependencies index
        · exact fails_iff.2 (.inr hdepends)
        · rw [hkind] at hf hreduce
          rw [← (reduce_product_iff.1 hf).2, done_eq_filter hkeeps] at hnonpos
          rcases hforeseen hkind index hindex hdepends with hproduct | ⟨-, hsure⟩
          · rw [(reduce_product_iff.1 hreduce).2] at hproduct
            exact fails_iff.2 (.inl hproduct)
          · exact absurd hnonpos (hsure _)
      · have hsub : g.done outcomes index ⊆ g.done full index :=
          (filterMap_sublist hkeeps _).subset
        exact fails_iff.2 (.inl
          (reduce_nonpos_of_subset hkind hsub (ne_nan_of_completed h index) hf hnonpos hreduce))
  | passed status =>
      rw [status] at hstatus
      cases hstatus
  | pending status =>
      rw [status] at hstatus
      cases hstatus

/-- What the gate calls passed early does not fail, and its fraction is a number. -/
theorem Built.not_fails_of_passed (hbuilt : g.Built) (h : Completed g full)
    (hkeeps : Keeps outcomes full) (hfractions : g.FractionsAt full fractions)
    (hforeseen : g.Foreseen full fractions) :
    ∀ index < g.targets.length, (g.statuses outcomes index).1 = .passed →
      ¬Fails fractions g.scoreType.dependencies index ∧ fractions index ≠ .nan := by
  refine hbuilt.induction ?_
  intro index hindex ih hstatus
  cases hbuilt.statusCase outcomes hindex with
  | blocked least status =>
      rw [status] at hstatus
      cases hstatus
  | ownFailure status =>
      rw [status] at hstatus
      cases hstatus
  | pending status =>
      rw [status] at hstatus
      cases hstatus
  | passed status notFailed complete dependencies =>
      have hdone : g.done full index = g.done outcomes index :=
        filterMap_eq_of_complete hkeeps complete
      have hown : ¬fractions index ≤ 0 := by
        rw [← ownFailed_iff_of_fractions hfractions hindex, hdone, notFailed]
        exact Bool.false_ne_true
      have hdepends : ¬DependsOnFailure fractions g.scoreType.dependencies index := by
        rw [dependsOnFailure_iff]
        rintro ⟨number, hnumber, hfails⟩
        exact (ih number hnumber (dependencies number hnumber)).1 hfails
      refine ⟨fun hfails => (fails_iff.1 hfails).elim hown hdepends, ?_⟩
      have hreduce := hfractions index hindex
      by_cases hkind : g.scoreType.kind = .groupMul
      · rw [hkind] at hreduce
        obtain ⟨-, hproduct⟩ := reduce_product_iff.1 hreduce
        rw [← hproduct] at hown ⊢
        exact ((hforeseen hkind index hindex hdepends).resolve_left hown).1
      · exact reduce_ne_nan hkind (ne_nan_of_completed h index) hreduce

/-! ### Agreement -/

/-- The gate agrees with the scorer on some outcomes and a completion of them: every subtask has a
fraction, and what is decided early is what it comes to. -/
def Agrees (g : SubtaskGate) (outcomes full : String → Option PyFloat) : Prop :=
  ∃ fractions zeroed, g.FractionsAt full fractions ∧
    zeroedBy fractions g.scoreType.dependencies = .ok zeroed ∧
    ∀ index < g.targets.length,
      ((g.statuses outcomes index).1 = .failed →
        effectiveFraction fractions zeroed index ≤ 0) ∧
      ((g.statuses outcomes index).1 = .passed →
        0 < effectiveFraction fractions zeroed index) ∧
      ((g.statuses full index).1 = .failed ↔
        effectiveFraction fractions zeroed index ≤ 0) ∧
      (g.statuses full index).2 = zeroed index

theorem effectiveFraction_nonpos_iff {dependencies : List (List Nat)} {zeroed : Nat → Option Nat}
    {index : Nat}
    (h : zeroed index ≠ none ↔ DependsOnFailure fractions dependencies index) :
    effectiveFraction fractions zeroed index ≤ 0 ↔ Fails fractions dependencies index := by
  rw [fails_iff, ← h, effectiveFraction]
  cases zeroed index with
  | none => simp
  | some number => simpa using PyFloat.zero_nonpos

/-- The blamed dependency is the same. -/
theorem Built.blockedBy_eq_zeroed (hbuilt : g.Built) (h : Completed g full)
    (hfractions : g.FractionsAt full fractions) {zeroed : Nat → Option Nat}
    {index : Nat} (hindex : index < g.targets.length)
    (hdepends : zeroed index ≠ none ↔
      DependsOnFailure fractions g.scoreType.dependencies index)
    (hleast : ∀ least, zeroed index = some least →
      IsLeast {number | number ∈ g.dependenciesOf index ∧
        Fails fractions g.scoreType.dependencies number} least) :
    (g.statuses full index).2 = zeroed index := by
  have hmem : ∀ number, number ∈ ((g.dependenciesOf index).filter fun number =>
      (g.statuses full number).1 = .failed) ↔ number ∈ g.dependenciesOf index ∧
        Fails fractions g.scoreType.dependencies number := by
    intro number
    rw [List.mem_filter, decide_eq_true_eq]
    exact and_congr_right fun hnumber =>
      hbuilt.failed_iff h hfractions number (hbuilt.dependency_lt hindex hnumber)
  rw [hbuilt.blockedBy_eq full hindex]
  cases hzeroed : zeroed index with
  | none =>
      rw [List.min?_eq_none_iff, List.eq_nil_iff_forall_not_mem]
      intro number hnumber
      obtain ⟨hdependency, hfails⟩ := (hmem number).1 hnumber
      exact hdepends.2 (dependsOnFailure_iff.2 ⟨number, hdependency, hfails⟩) hzeroed
  | some least =>
      obtain ⟨hin, hlower⟩ := hleast least hzeroed
      rw [List.min?_eq_some_iff]
      exact ⟨(hmem least).2 hin, fun number hnumber => hlower ((hmem number).1 hnumber)⟩

/-- With a fraction for every subtask, and products that it foresees, the gate agrees with the
scorer. -/
theorem Built.agrees (hbuilt : g.Built) {parameters : List PyValue}
    (hparsed : parseDependencies parameters = .ok g.scoreType.dependencies)
    (hlength : g.scoreType.dependencies.length = g.targets.length)
    (h : Completed g full) (hkeeps : Keeps outcomes full)
    (hfractions : g.FractionsAt full fractions) (hforeseen : g.Foreseen full fractions) :
    g.Agrees outcomes full := by
  obtain ⟨zeroed, hzeroed, hspec⟩ := zeroedBy_of_parsed PyFloat.zero_nonpos hparsed fractions
  have heffective : ∀ index < g.targets.length, effectiveFraction fractions zeroed index ≤ 0 ↔
      Fails fractions g.scoreType.dependencies index := fun index hindex =>
    effectiveFraction_nonpos_iff (hspec index (hlength ▸ hindex)).1
  refine ⟨fractions, zeroed, hfractions, hzeroed, fun index hindex => ⟨?_, ?_, ?_, ?_⟩⟩
  · intro hearly
    rw [heffective index hindex]
    exact hbuilt.fails_of_failed h hkeeps hfractions hforeseen index hindex hearly
  · intro hearly
    obtain ⟨hnotFails, hnumber⟩ :=
      hbuilt.not_fails_of_passed h hkeeps hfractions hforeseen index hindex hearly
    have hnotNonpos := mt (heffective index hindex).1 hnotFails
    refine (PyFloat.not_nonpos_iff.1 hnotNonpos).resolve_right fun hnan => ?_
    rw [effectiveFraction] at hnan
    split at hnan
    · cases hnan
    · exact hnumber hnan
  · exact (hbuilt.failed_iff h hfractions index hindex).trans (heffective index hindex).symm
  · obtain ⟨hdepends, hleast⟩ := hspec index (hlength ▸ hindex)
    refine hbuilt.blockedBy_eq_zeroed h hfractions hindex hdepends fun least heq => ?_
    have hset : {number | number ∈ g.dependenciesOf index ∧
        Fails fractions g.scoreType.dependencies number} =
        {number | number ∈ Grading.dependenciesOf g.scoreType.dependencies index ∧
          (fractions number ≤ 0 ∨ zeroed number ≠ none)} := by
      ext number
      refine and_congr_right fun hnumber => ?_
      have hlt := hbuilt.dependency_lt hindex hnumber
      rw [(hspec number (hlength ▸ hlt)).1]
      exact fails_iff
    rw [hset]
    exact hleast least heq

/-- Without an empty subtask, except for thresholds, every subtask has a fraction. -/
theorem Built.exists_fractions (hbuilt : g.Built) (h : Completed g full)
    (hnonempty : g.scoreType.kind ≠ .groupThreshold → ∀ target ∈ g.targets, target ≠ []) :
    ∃ fractions, g.FractionsAt full fractions := by
  have hexists : ∀ index, ∃ fraction : PyFloat, index < g.targets.length →
      reduce g.scoreType.kind (g.done full index) (g.parameter index) = .ok fraction := by
    intro index
    by_cases hindex : index < g.targets.length
    · by_cases hnil : g.done full index = []
      · -- An empty subtask, which has a threshold.
        have htarget : g.target index = [] := by
          have hlength := length_done h index
          rw [hnil] at hlength
          exact List.eq_nil_of_length_eq_zero hlength.symm
        have hkind : g.scoreType.kind = .groupThreshold := by
          by_contra hkind
          refine hnonempty hkind (g.target index) ?_ htarget
          simp [target, hindex]
        obtain ⟨threshold, hthreshold, -⟩ := hbuilt.readable index hindex hkind
        refine ⟨1, fun _ => ?_⟩
        rw [hnil, hkind]
        exact reduce_threshold_eq_ok_iff.2 ⟨threshold, hthreshold, true, rfl, rfl⟩
      · obtain ⟨fraction, hfraction⟩ :=
          reduce_ok_of_readable (hbuilt.readable index hindex) hnil
        exact ⟨fraction, fun _ => hfraction⟩
    · exact ⟨0, fun h => absurd h hindex⟩
  choose fractions hfractions using hexists
  exact ⟨fractions, hfractions⟩

/-- Where the gate agrees with the scorer there is no empty subtask, except for thresholds. -/
theorem ne_nil_of_fractions (hfractions : g.FractionsAt full fractions)
    (hkind : g.scoreType.kind ≠ .groupThreshold) : ∀ target ∈ g.targets, target ≠ [] := by
  rintro target htarget rfl
  obtain ⟨index, hindex, hget⟩ := List.getElem_of_mem htarget
  have hreduce := hfractions index hindex
  have hnil : g.done full index = [] := by
    simp [done, SubtaskGate.target, hindex, hget]
  rw [hnil] at hreduce
  cases hcase : g.scoreType.kind with
  | groupMin =>
      rw [hcase] at hreduce
      cases hreduce
  | groupMul =>
      rw [hcase] at hreduce
      cases hreduce
  | groupThreshold => exact hkind hcase

/-- A product that the gate does not foresee is one on which it does not agree. -/
theorem Built.sureProduct_of_agrees (hbuilt : g.Built) (h : Completed g full)
    (hagrees : ∀ outcomes, Keeps outcomes full → g.Agrees outcomes full)
    (hfractions : g.FractionsAt full fractions) (hkind : g.scoreType.kind = .groupMul)
    {index : Nat} (hindex : index < g.targets.length)
    (hdepends : ¬DependsOnFailure fractions g.scoreType.dependencies index) :
    g.SureProduct full index := by
  have hproduct : ∀ {fractions' : Nat → PyFloat}, g.FractionsAt full fractions' →
      fractions' index = product (g.done full index) := by
    intro fractions' hfractions'
    have hreduce := hfractions' index hindex
    rw [hkind] at hreduce
    exact (reduce_product_iff.1 hreduce).2.symm
  by_cases hnonpos : product (g.done full index) ≤ 0
  · exact .inl hnonpos
  have hnotFailed : (g.statuses full index).1 ≠ .failed := by
    rw [ne_eq, hbuilt.failed_iff h hfractions index hindex, fails_iff, hproduct hfractions]
    exact fun hfails => hfails.elim hnonpos hdepends
  refine .inr ⟨fun hnan => ?_, fun keep hkept => ?_⟩
  · -- With all outcomes known the subtask has passed, without a number.
    have hpassed : g.statuses full index = (.passed, none) := by
      cases hbuilt.statusCase full hindex with
      | blocked least status => exact absurd (by rw [status]) hnotFailed
      | ownFailure status => exact absurd (by rw [status]) hnotFailed
      | passed status => exact status
      | pending status => exact absurd (by rw [status]) (hbuilt.not_pending h index hindex)
    obtain ⟨fractions', zeroed, hfractions', -, hspec⟩ := hagrees full fun _ _ hknown => hknown
    obtain ⟨-, hpositive, -, hzeroed⟩ := hspec index hindex
    rw [hpassed] at hpositive hzeroed
    have hpositive := hpositive rfl
    rw [effectiveFraction, ← hzeroed, hproduct hfractions', hnan] at hpositive
    exact PyFloat.not_pos_nan hpositive
  · -- With these testcases alone it has failed.
    have hkeeps : Keeps (fun codename => if keep codename then full codename else none) full := by
      intro codename q hknown
      dsimp only at hknown
      split at hknown
      · exact hknown
      · cases hknown
    have hdone : g.done (fun codename => if keep codename then full codename else none) index =
        ((g.target index).filter keep).filterMap full := by
      rw [done, List.filterMap_filter]
    have hown : g.ownFailed
        (g.done (fun codename => if keep codename then full codename else none) index) index =
          true := by
      have hne : ((g.target index).filter keep).filterMap full ≠ [] := by
        intro hnil
        rw [hnil] at hkept
        exact PyFloat.not_one_nonpos hkept
      rw [hdone, ownFailed_iff_reduce, hkind]
      exact ⟨hne, _, reduce_product_iff.2 ⟨hne, rfl⟩, hkept⟩
    have hearly := hbuilt.failed_of_ownFailed hindex hown
    obtain ⟨fractions', zeroed, -, -, hspec⟩ := hagrees _ hkeeps
    obtain ⟨hfailed, -, hfinal, -⟩ := hspec index hindex
    exact hnotFailed (hfinal.2 (hfailed hearly))

end SubtaskGate

/-! ## Which gates agree -/

section Created

variable {compile : String → Except PyError (String → Bool)} {kind : GroupKind}
  {parameters : PyValue} {publicTestcases : List (String × Bool)} {scorePrecision : Nat}
  {st : ScoreTypeGroup} {g : SubtaskGate} {full : String → Option PyFloat}

end Created

/-! ## Subtasks on which they disagree -/

/-- No pattern can be compiled. -/
def noPatterns : String → Except PyError (String → Bool) := fun _ => .error .typeError

/-- The second subtask depends on the first one, and consists of the listed testcases. -/
def dependentParameters (listed : List String) : PyValue :=
  .list [.list [.int 40, .list [.str "000"]],
    .dict [("max_score", .int 60), ("testcases", .list (listed.map .str)),
      ("depends_on", .list [.int 0])]]

def dependentScoreType : ScoreTypeGroup :=
  (ScoreTypeGroup.create noPatterns .groupMul (dependentParameters ["001"])
    [("000", true), ("001", true)] 0).toOption.get (by decide +kernel)

def dependentGate : SubtaskGate :=
  (SubtaskGate.create noPatterns dependentScoreType).toOption.get (by decide +kernel)

/-- Every testcase is half right. -/
def halfOutcomes (_codename : String) : Option PyFloat := some (.ofRat (1 / 2))

theorem inUnit_halfOutcomes {codename : String} {x : PyFloat}
    (h : halfOutcomes codename = some x) : PyFloat.InUnit x := by
  rw [← Option.some.inj h]
  exact PyFloat.inUnit_ofRat (by norm_num) (by norm_num)

/-- The constructor accepts a subtask without testcases. -/
def emptyScoreType : ScoreTypeGroup :=
  (ScoreTypeGroup.create noPatterns .groupMin (dependentParameters []) [("000", true)] 0).toOption.get
    (by decide +kernel)

def emptyGate : SubtaskGate :=
  (SubtaskGate.create noPatterns emptyScoreType).toOption.get (by decide +kernel)

/-- Three testcases of which the first two overflow. -/
def hugeScoreType : ScoreTypeGroup :=
  (ScoreTypeGroup.create noPatterns .groupMul
    (.list [.list [.int 100, .list [.str "000", .str "001", .str "002"]]])
    [("000", true), ("001", true), ("002", true)] 0).toOption.get (by decide +kernel)

def hugeGate : SubtaskGate :=
  (SubtaskGate.create noPatterns hugeScoreType).toOption.get (by decide +kernel)

/-- Every testcase is right. -/
def rightOutcomes (_codename : String) : Option PyFloat := some 1

def hugeOutcomes (codename : String) : Option PyFloat :=
  if codename = "002" then some 0 else some (.ofRat (10 ^ 200))

/-- Of the three testcases the last one is evaluated first. -/
def lastOutcome (codename : String) : Option PyFloat :=
  if codename = "002" then some 0 else none

end Grading
end ContestManagement
