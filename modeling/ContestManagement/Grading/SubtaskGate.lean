import ContestManagement.Grading.Reduction
import ContestManagement.Grading.TwoPhase

/-!
# The dependency gate

`SubtaskGate` of `cms/grading/subtaskdag.py`: the status of every subtask from the
evaluations so far, the testcases that may be evaluated, and those that nobody
needs any more.
-/

namespace ContestManagement
namespace Grading

open Lib

inductive SubtaskStatus where
  | pending
  | passed
  | failed
  deriving DecidableEq, Repr

structure SubtaskGate where
  scoreType : ScoreTypeGroup
  targets : List (List String)
  order : List Nat

namespace SubtaskGate

/-- The constructor.  It first reduces `[1.0]` with every parameter, so that a
parameter `reduce` cannot read raises here and not in `statuses`. -/
def create (compile : String → Except PyError (String → Bool)) (scoreType : ScoreTypeGroup) :
    Except PyError SubtaskGate := do
  let _ ← scoreType.parameters.mapM fun parameter => reduce scoreType.kind [1] parameter
  let targets ← retrieveTargetTestcases compile scoreType.parameters
    (scoreType.publicTestcases.map Prod.fst)
  let order ← topologicalOrder scoreType.dependencies
  return { scoreType, targets, order }

def target (g : SubtaskGate) (index : Nat) : List String :=
  g.targets.getD index []

def parameter (g : SubtaskGate) (index : Nat) : PyValue :=
  g.scoreType.parameters.getD index .none

def dependenciesOf (g : SubtaskGate) (index : Nat) : List Nat :=
  Grading.dependenciesOf g.scoreType.dependencies index

/-- `_subtasks_of`: the subtasks of a testcase, once for each time they list it. -/
def subtasksOf (g : SubtaskGate) (codename : String) : List Nat :=
  (List.range g.targets.length).flatMap fun index =>
    List.replicate ((g.target index).count codename) index

/-- The outcomes so far of the testcases of a subtask. -/
def done {F : Type} (g : SubtaskGate) (outcomes : String → Option F) (index : Nat) : List F :=
  (g.target index).filterMap outcomes

section Statuses

variable {F : Type} [OfNat F 0] [OfNat F 1] [Mul F] [LT F] [DecidableLT F] [LE F] [DecidableLE F]
  [Fractions F]

/-- `done and reduce(done) <= 0.0`.  After the constructor's probe `reduce` does not
raise here (`reduce_ok_of_readable`). -/
def ownFailed (g : SubtaskGate) (done : List F) (index : Nat) : Bool :=
  done ≠ [] && (match reduce g.scoreType.kind done (g.parameter index) with
    | .ok fraction => decide (fraction ≤ 0)
    | .error _ => false)

/-- The status of one subtask, and the dependency to blame for it, from the statuses
of its dependencies. -/
def statusRule (g : SubtaskGate) (outcomes : String → Option F)
    (found : Nat → SubtaskStatus × Option Nat) (index : Nat) : SubtaskStatus × Option Nat :=
  let deps := g.dependenciesOf index
  let failed := deps.filter fun number => (found number).1 = .failed
  match failed.min? with
  | some least => (.failed, some least)
  | none =>
      let done := g.done outcomes index
      if g.ownFailed done index then (.failed, none)
      else if done.length = (g.target index).length ∧ ∀ number ∈ deps, (found number).1 = .passed then
        (.passed, none)
      else (.pending, none)

/-- `statuses`: the status of each subtask, and what blocks it. -/
def statuses (g : SubtaskGate) (outcomes : String → Option F) :
    Nat → SubtaskStatus × Option Nat :=
  sweep (g.statusRule outcomes) (fun _ => (.pending, none)) g.order

end Statuses

/-- `releasable`. -/
def releasable (g : SubtaskGate) (codename : String) (status : Nat → SubtaskStatus × Option Nat) :
    Bool :=
  let subtasks := g.subtasksOf codename
  subtasks.isEmpty || subtasks.any fun index =>
    (g.dependenciesOf index).all fun number => (status number).1 = .passed

/-- `skippable`, for one testcase that is left: the dependency its message names. -/
def skippable (g : SubtaskGate) (status : Nat → SubtaskStatus × Option Nat) (codename : String) :
    Option Nat :=
  let subtasks := g.subtasksOf codename
  if subtasks ≠ [] ∧ ∀ index ∈ subtasks, (status index).2 ≠ none then
    subtasks.min?.bind fun first => (status first).2
  else none

/-- What is true of all outcomes is true of those of a subtask. -/
theorem forall_mem_done {F : Type} {g : SubtaskGate} {outcomes : String → Option F} {P : F → Prop}
    (h : ∀ codename x, outcomes codename = some x → P x) (index : Nat) :
    ∀ x ∈ g.done outcomes index, P x := by
  intro x hx
  obtain ⟨codename, -, hknown⟩ := List.mem_filterMap.1 hx
  exact h codename x hknown

theorem mem_subtasksOf {g : SubtaskGate} {codename : String} {index : Nat} :
    index ∈ g.subtasksOf codename ↔ index < g.targets.length ∧ codename ∈ g.target index := by
  rw [subtasksOf, List.mem_flatMap]
  constructor
  · rintro ⟨i, hi, hmem⟩
    obtain ⟨hcount, rfl⟩ := List.mem_replicate.1 hmem
    exact ⟨List.mem_range.1 hi, List.count_pos_iff.1 (Nat.pos_of_ne_zero hcount)⟩
  · rintro ⟨hindex, hmem⟩
    exact ⟨index, List.mem_range.2 hindex,
      List.mem_replicate.2 ⟨Nat.ne_of_gt (List.count_pos_iff.2 hmem), rfl⟩⟩

theorem skippable_eq_none_iff {g : SubtaskGate} {status : Nat → SubtaskStatus × Option Nat}
    {codename : String} : g.skippable status codename = none ↔
      g.subtasksOf codename = [] ∨ ∃ index ∈ g.subtasksOf codename, (status index).2 = none := by
  rw [skippable]
  split
  · rename_i h
    obtain ⟨hne, hall⟩ := h
    obtain ⟨first, hfirst⟩ := Option.ne_none_iff_exists'.1 (mt List.min?_eq_none_iff.1 hne)
    rw [hfirst, Option.bind_some]
    constructor
    · intro hnone
      exact absurd hnone (hall first (List.min?_mem hfirst))
    · rintro (hnil | ⟨index, hindex, hnone⟩)
      · exact absurd hnil hne
      · exact absurd hnone (hall index hindex)
  · rename_i h
    simp only [ne_eq, not_and, not_forall, not_not] at h
    refine ⟨fun _ => ?_, fun _ => rfl⟩
    by_cases hnil : g.subtasksOf codename = []
    · exact .inl hnil
    · obtain ⟨index, hindex, hnone⟩ := h hnil
      exact .inr ⟨index, hindex, hnone⟩

/-! ### What the constructor guarantees -/

/-- A gate as the constructor builds it from a score type that was accepted. -/
structure Built (g : SubtaskGate) : Prop where
  topological : Topological g.dependenciesOf g.order
  mem_order : ∀ index, index ∈ g.order ↔ index < g.targets.length
  readable : ∀ index < g.targets.length, Readable g.scoreType.kind (g.parameter index)

variable {g : SubtaskGate}

theorem Built.dependency_lt (h : g.Built) {index number : Nat} (hindex : index < g.targets.length)
    (hnumber : number ∈ g.dependenciesOf index) : number < g.targets.length :=
  (h.mem_order number).1
    (h.topological.reads_mem ((h.mem_order index).2 hindex) hnumber)

/-- Induction over the subtasks along their dependencies. -/
theorem Built.induction (h : g.Built) {P : Nat → Prop}
    (hstep : ∀ index < g.targets.length, (∀ number ∈ g.dependenciesOf index, P number) → P index) :
    ∀ index < g.targets.length, P index := by
  intro index hindex
  refine h.topological.induction (P := P) ?_ index ((h.mem_order index).2 hindex)
  intro node hnode hdeps
  exact hstep node ((h.mem_order node).1 hnode) hdeps

section Cases

variable {F : Type} [OfNat F 0] [OfNat F 1] [Mul F] [LT F] [DecidableLT F] [LE F] [DecidableLE F]
  [Fractions F] {outcomes : String → Option F}

/-- The outcomes so far reduce to nothing. -/
theorem ownFailed_iff_reduce {done : List F} {index : Nat} :
    g.ownFailed done index = true ↔
      done ≠ [] ∧ ∃ f : F, reduce g.scoreType.kind done (g.parameter index) = .ok f ∧ f ≤ 0 := by
  rw [ownFailed, Bool.and_eq_true, decide_eq_true_eq]
  refine and_congr_right fun _ => ?_
  cases reduce g.scoreType.kind done (g.parameter index) with
  | ok f => simp
  | error e => simp

/-- The statuses solve their rule. -/
theorem Built.statuses_eq (h : g.Built) (outcomes : String → Option F) {index : Nat}
    (hindex : index < g.targets.length) :
    g.statuses outcomes index =
      g.statusRule outcomes (g.statuses outcomes) index := by
  refine sweep_eq ?_ _ h.topological index ((h.mem_order index).2 hindex)
  intro v w node hreads
  have hfailed : (g.dependenciesOf node).filter (fun number => (v number).1 = .failed) =
      (g.dependenciesOf node).filter fun number => (w number).1 = .failed := by
    refine List.filter_congr ?_
    intro d hd
    rw [hreads d hd]
  have hpassed : (∀ number ∈ g.dependenciesOf node, (v number).1 = .passed) ↔
      ∀ number ∈ g.dependenciesOf node, (w number).1 = .passed := by
    constructor
    · intro hv d hd
      rw [← hreads d hd]
      exact hv d hd
    · intro hw d hd
      rw [hreads d hd]
      exact hw d hd
  simp only [statusRule, hfailed, hpassed]

/-- The cases of a status, with what each one means. -/
inductive StatusCase (g : SubtaskGate) (outcomes : String → Option F) (index : Nat) : Prop
  | blocked (least : Nat) (status : g.statuses outcomes index = (.failed, some least))
      (dependency : least ∈ g.dependenciesOf index)
      (failed : (g.statuses outcomes least).1 = .failed)
  | ownFailure (status : g.statuses outcomes index = (.failed, none))
      (unblocked : ∀ number ∈ g.dependenciesOf index,
        (g.statuses outcomes number).1 ≠ .failed)
      (failed : g.ownFailed (g.done outcomes index) index = true)
  | passed (status : g.statuses outcomes index = (.passed, none))
      (notFailed : g.ownFailed (g.done outcomes index) index = false)
      (complete : (g.done outcomes index).length = (g.target index).length)
      (dependencies : ∀ number ∈ g.dependenciesOf index,
        (g.statuses outcomes number).1 = .passed)
  | pending (status : g.statuses outcomes index = (.pending, none))
      (unblocked : ∀ number ∈ g.dependenciesOf index,
        (g.statuses outcomes number).1 ≠ .failed)
      (notFailed : g.ownFailed (g.done outcomes index) index = false)
      (incomplete : (g.done outcomes index).length = (g.target index).length →
        ∃ number ∈ g.dependenciesOf index, (g.statuses outcomes number).1 ≠ .passed)

theorem Built.statusCase (h : g.Built) (outcomes : String → Option F) {index : Nat}
    (hindex : index < g.targets.length) : g.StatusCase outcomes index := by
  have heq := h.statuses_eq outcomes hindex
  simp only [statusRule] at heq
  split at heq
  · rename_i least hleast
    have hmem := List.mem_filter.1 (List.min?_mem hleast)
    exact .blocked least heq hmem.1 (by simpa using hmem.2)
  · rename_i hnone
    have hunblocked : ∀ number ∈ g.dependenciesOf index,
        (g.statuses outcomes number).1 ≠ .failed := by
      intro number hnumber hfailed
      have hnil := List.filter_eq_nil_iff.1 (List.min?_eq_none_iff.1 hnone) number hnumber
      simp [hfailed] at hnil
    split at heq
    · rename_i hown
      exact .ownFailure heq hunblocked hown
    · rename_i hown
      rw [Bool.not_eq_true] at hown
      split at heq
      · rename_i hpassed
        exact .passed heq hown hpassed.1 hpassed.2
      · rename_i hpending
        refine .pending heq hunblocked hown ?_
        intro hcomplete
        by_contra hall
        simp only [not_exists, not_and, not_not] at hall
        exact hpending ⟨hcomplete, hall⟩

/-- What reduces to nothing so far has failed. -/
theorem Built.failed_of_ownFailed (h : g.Built) {index : Nat}
    (hindex : index < g.targets.length)
    (hown : g.ownFailed (g.done outcomes index) index = true) :
    (g.statuses outcomes index).1 = .failed := by
  cases h.statusCase outcomes hindex with
  | blocked least status => rw [status]
  | ownFailure status => rw [status]
  | passed status notFailed =>
      rw [notFailed] at hown
      cases hown
  | pending status unblocked notFailed =>
      rw [notFailed] at hown
      cases hown

end Cases

end SubtaskGate

end Grading
end ContestManagement
