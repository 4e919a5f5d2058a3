import ContestManagement.Grading.Feedback
import ContestManagement.Grading.Scorable
import Mathlib.Data.String.Basic

/-!
# What restricted feedback shows

Restricted feedback is meant to show the public testcases of a subtask up to the first one with
the lowest outcome.  The marks are set by comparing codenames: where a target lists its testcases
in another order, these are not the first ones of the target.
-/

namespace ContestManagement
namespace Grading

open Lib
open ScoreTypeGroup (markFeedback)

/-! ## Places in a list -/

section Places

variable {α : Type*}

/-- Leaving some values out does not change the order of the other ones. -/
theorem idxOf_filter_le_iff [DecidableEq α] {p : α → Bool} {a b : α} (ha : p a = true)
    (hb : p b = true) (values : List α) :
    (values.filter p).idxOf a ≤ (values.filter p).idxOf b ↔ values.idxOf a ≤ values.idxOf b := by
  induction values with
  | nil => simp
  | cons x rest ih =>
      cases hx : p x with
      | false =>
          have hxa : x ≠ a := by
            rintro rfl
            rw [ha] at hx
            cases hx
          have hxb : x ≠ b := by
            rintro rfl
            rw [hb] at hx
            cases hx
          rw [List.filter_cons_of_neg (by simp [hx]), List.idxOf_cons_ne rest hxa,
            List.idxOf_cons_ne rest hxb, ih]
          omega
      | true =>
          rw [List.filter_cons_of_pos hx]
          by_cases hxa : x = a
          · subst hxa
            simp
          · by_cases hxb : x = b
            · subst hxb
              rw [List.idxOf_cons_ne _ hxa, List.idxOf_cons_ne _ hxa]
              simp
            · rw [List.idxOf_cons_ne _ hxa, List.idxOf_cons_ne _ hxb, List.idxOf_cons_ne _ hxa,
                List.idxOf_cons_ne _ hxb]
              omega

/-- In a sorted list the places are in the order of the values. -/
theorem le_of_idxOf_le [LinearOrder α] {values : List α} (h : values.Pairwise (· ≤ ·)) {a b : α}
    (ha : a ∈ values) (hb : b ∈ values) (hle : values.idxOf a ≤ values.idxOf b) : a ≤ b := by
  have hlta := List.idxOf_lt_length_of_mem ha
  have hltb := List.idxOf_lt_length_of_mem hb
  rcases Nat.lt_or_ge (values.idxOf a) (values.idxOf b) with hlt | hge
  · have hpair := List.pairwise_iff_getElem.1 h _ _ hlta hltb hlt
    rwa [List.getElem_idxOf hlta, List.getElem_idxOf hltb] at hpair
  · exact le_of_eq ((List.idxOf_inj ha).1 (Nat.le_antisymm hle hge))

end Places

/-! ## The first lowest testcase -/

variable {st : ScoreTypeGroup} {result : ScoredResult} {parameter : PyValue}
  {target : List String}

/-- The first public testcase of a target with the lowest outcome of the public ones. -/
structure FirstLowest (st : ScoreTypeGroup) (evaluations : List Evaluation) (target : List String)
    (first : String) : Prop where
  mem : first ∈ target
  shows : st.shows first = true
  lowest : ∀ codename ∈ target, st.shows codename = true →
    outcomeAt evaluations first ≤ outcomeAt evaluations codename
  before : ∀ codename ∈ target, st.shows codename = true →
    outcomeAt evaluations codename ≤ outcomeAt evaluations first →
    target.idxOf first ≤ target.idxOf codename

theorem argmin_eq_some_iff_firstLowest {evaluations : List Evaluation} {first : String} :
    (target.filter st.shows).argmin (outcomeAt evaluations) = some first ↔
      FirstLowest st evaluations target first := by
  rw [List.argmin_eq_some_iff]
  constructor
  · rintro ⟨hfirst, hlowest, hbefore⟩
    obtain ⟨hmem, hshows⟩ := List.mem_filter.1 hfirst
    refine ⟨hmem, hshows, fun codename hcodename hc => ?_, fun codename hcodename hc hle => ?_⟩
    · exact hlowest codename (List.mem_filter.2 ⟨hcodename, hc⟩)
    · rw [← idxOf_filter_le_iff hshows hc]
      exact hbefore codename (List.mem_filter.2 ⟨hcodename, hc⟩) hle
  · intro h
    refine ⟨List.mem_filter.2 ⟨h.mem, h.shows⟩, fun codename hcodename => ?_,
      fun codename hcodename hle => ?_⟩
    · obtain ⟨hmem, hc⟩ := List.mem_filter.1 hcodename
      exact h.lowest codename hmem hc
    · obtain ⟨hmem, hc⟩ := List.mem_filter.1 hcodename
      rw [idxOf_filter_le_iff h.shows hc]
      exact h.before codename hmem hc hle

/-! ## The marks -/

/-- The row of a public testcase is marked as it should be. -/
structure PrefixMarks (target : List String) (first : String) (details : TestcaseDetails) :
    Prop where
  restricted : details.showInRestrictedFeedback = true ↔
    target.idxOf details.idx ≤ target.idxOf first
  oiRestricted : details.showInOiRestrictedFeedback = true ↔ details.idx = first

/-- Marked are the public rows up to the first lowest testcase. -/
def MarkedPrefix (st : ScoreTypeGroup) (evaluations : List Evaluation) (target : List String)
    (rows : List TestcaseRow) : Prop :=
  ∀ first, FirstLowest st evaluations target first →
    ∀ details, TestcaseRow.full details ∈ rows → st.shows details.idx = true →
      PrefixMarks target first details

section Entry

variable {zeroed : Nat → Option Nat} {index : Nat} {entry : SubtaskEntry}
  {testcases : List ScoredTestcase} {own : ℚ}

/-- The full rows of the public details are rows of the details. -/
theorem EntryRows.full_mem (h : EntryRows st result zeroed parameter target index entry testcases own)
    {details : TestcaseDetails}
    (hdetails : TestcaseRow.full details ∈ entry.publicSubtask.testcases) :
    TestcaseRow.full details ∈ entry.subtask.testcases := by
  have hshown : ∀ shown : SubtaskDetails,
      TestcaseRow.full details ∈ shown.withoutDependencyMessages.testcases →
        TestcaseRow.full details ∈ shown.testcases := by
    intro shown hmem
    obtain ⟨row, hrow, heq⟩ := List.mem_map.1 hmem
    cases row with
    | bare idx => cases heq
    | full tc =>
        dsimp only at heq
        split at heq
        · cases heq
        · rwa [heq] at hrow
  have hhidden : TestcaseRow.full details ∈ (hiddenSubtask (F := ℚ) index
      (zeroed index) (testcases.map (markFeedback (markedBy own parameter testcases)))).testcases →
        TestcaseRow.full details ∈ entry.subtask.testcases := by
    intro hmem
    obtain ⟨tc, htc, heq⟩ := List.mem_map.1 hmem
    rw [h.rows]
    unfold publicRow at heq
    split at heq
    · rw [← heq]
      exact List.mem_map_of_mem htc
    · cases heq
  rw [h.publicSubtask] at hdetails
  dsimp only at hdetails
  split at hdetails
  · split at hdetails
    · exact hshown _ hdetails
    · exact hhidden (hshown _ hdetails)
  · split at hdetails
    · exact hdetails
    · exact hhidden hdetails

/-- The marks of a public row. -/
theorem EntryRows.marks (h : EntryRows st result zeroed parameter target index entry testcases own)
    (hown : own < 1) (hnot : getAlwaysShowTestcases parameter = false) {first : String}
    (hfirst : FirstLowest st result.evaluations target first) {details : TestcaseDetails}
    (hdetails : TestcaseRow.full details ∈ entry.subtask.testcases)
    (hshows : st.shows details.idx = true) :
    details.idx ∈ target ∧ details.showInRestrictedFeedback = decide (details.idx ≤ first) ∧
      details.showInOiRestrictedFeedback = decide (details.idx = first) := by
  have hlowest : markedBy own parameter testcases = some first := by
    rw [markedBy, if_pos (by simp [hown, hnot]), firstLowest_eq_argmin (scored_of_mapM h.scored)]
    exact argmin_eq_some_iff_firstLowest.2 hfirst
  rw [h.rows, hlowest, List.map_map, List.mem_map] at hdetails
  obtain ⟨tc, htc, heq⟩ := hdetails
  cases heq
  obtain ⟨codename, hcodename, hscore⟩ := exists_of_mem_mapM h.scored htc
  have hscored := scored_of_scoreTestcase hscore
  rw [markFeedback_idx] at hshows ⊢
  have hpublic : tc.isPublic = true := by
    rw [hscored.isPublic, ← hscored.idx]
    exact hshows
  have hflags := @markFeedback_flags ℚ first tc hpublic
  rw [hscored.idx] at hflags ⊢
  exact ⟨hcodename, hflags.1, hflags.2⟩

/-- The details have a row for each testcase of the target. -/
theorem EntryRows.idx_eq (h : EntryRows st result zeroed parameter target index entry testcases own) :
    ∃ rows : List TestcaseDetails, entry.subtask.testcases = rows.map TestcaseRow.full ∧
      rows.map TestcaseDetails.idx = target := by
  refine ⟨(testcases.map (markFeedback (markedBy own parameter testcases))).map
    ScoredTestcase.details, ?_, ?_⟩
  · rw [h.rows, List.map_map, List.map_map, List.map_map]
    rfl
  · have hidx : List.Forall₂ (fun codename tc => codename =
        (markFeedback (markedBy own parameter testcases) tc).details.idx) target testcases := by
      apply (scored_of_mapM h.scored).imp
      intro codename tc hscored
      rw [markFeedback_idx, hscored.idx]
    rw [← List.forall₂_map_right_iff, List.forall₂_eq_eq_eq] at hidx
    rw [List.map_map, List.map_map]
    exact hidx.symm

/-- The rows are marked as they should be where the first lowest testcase has the same testcases
before it in the target as by codename. -/
theorem EntryRows.markedPrefix_iff
    (h : EntryRows st result zeroed parameter target index entry testcases own)
    (hown : own < 1) (hnot : getAlwaysShowTestcases parameter = false) :
    MarkedPrefix st result.evaluations target entry.subtask.testcases ↔
      ∀ first, FirstLowest st result.evaluations target first → ∀ codename ∈ target,
        st.shows codename = true →
          (codename ≤ first ↔ target.idxOf codename ≤ target.idxOf first) := by
  constructor
  · intro hshown first hfirst codename hcodename hshows
    obtain ⟨rows, hrows, hidx⟩ := h.idx_eq
    rw [← hidx, List.mem_map] at hcodename
    obtain ⟨details, hdetails, rfl⟩ := hcodename
    have hmem : TestcaseRow.full details ∈ entry.subtask.testcases := by
      rw [hrows]
      exact List.mem_map_of_mem hdetails
    have hmarks := hshown first hfirst details hmem hshows
    obtain ⟨-, hrestricted, -⟩ := h.marks hown hnot hfirst hmem hshows
    rw [← hmarks.restricted, hrestricted, decide_eq_true_iff]
  · intro hplaces first hfirst details hdetails hshows
    obtain ⟨hmem, hrestricted, hoi⟩ := h.marks hown hnot hfirst hdetails hshows
    constructor
    · rw [hrestricted, decide_eq_true_iff]
      exact hplaces first hfirst details.idx hmem hshows
    · rw [hoi, decide_eq_true_iff]

end Entry

/-! ## Targets in the order of their codenames -/

/-- The public testcases of a target stand in the order of their codenames. -/
def InCodenameOrder (st : ScoreTypeGroup) (target : List String) : Prop :=
  ∀ c ∈ target, ∀ d ∈ target, st.shows c = true → st.shows d = true →
    target.idxOf c ≤ target.idxOf d → c ≤ d

theorem InCodenameOrder.le_iff (h : InCodenameOrder st target) {c d : String} (hc : c ∈ target)
    (hd : d ∈ target) (hshowsc : st.shows c = true) (hshowsd : st.shows d = true) :
    c ≤ d ↔ target.idxOf c ≤ target.idxOf d := by
  constructor
  · intro hle
    by_contra hlt
    have hge := h d hd c hc hshowsd hshowsc (by omega)
    rw [le_antisymm hle hge] at hlt
    exact hlt (le_refl _)
  · exact h c hc d hd hshowsc hshowsd

theorem inCodenameOrder_of_sorted (h : target.Pairwise (· ≤ ·)) : InCodenameOrder st target :=
  fun _ hc _ hd _ _ hle => le_of_idxOf_le h hc hd hle

theorem countTargets_sorted {indices : List String} (h : indices.Pairwise (· ≤ ·)) (current : ℤ)
    (counts : List ℤ) : ∀ target ∈ countTargets indices current counts,
      target.Pairwise (· ≤ ·) := by
  induction counts generalizing current with
  | nil => simp [countTargets]
  | cons t rest ih =>
      intro target htarget
      rw [countTargets, List.mem_cons] at htarget
      rcases htarget with rfl | hrest
      · exact (h.drop).take
      · exact ih (current + t) target hrest

/-- The testcases of targets given by numbers or by expressions stand in the order of their
codenames; only lists of codenames may give another order. -/
theorem inCodenameOrder_or_listed {compile : String → Except PyError (String → Bool)}
    {parameters : List PyValue} {codenames : List String} {targets : List (List String)}
    (h : retrieveTargetTestcases compile parameters codenames = .ok targets) :
    (∀ target ∈ targets, InCodenameOrder st target) ∨
      ∃ values, parameters.mapM getTestcases = .ok values ∧
        values.mapM PyValue.strings? = some targets := by
  have hsorted : (sortedStrings codenames).Pairwise (· ≤ ·) := List.pairwise_insertionSort _ _
  rw [retrieveTargetTestcases, bind_eq_ok_iff] at h
  obtain ⟨values, hvalues, h⟩ := h
  dsimp only at h
  split at h
  · cases h
    exact .inl fun target htarget =>
      inCodenameOrder_of_sorted (countTargets_sorted hsorted 0 _ target htarget)
  · left
    intro target htarget
    obtain ⟨pattern, -, hpattern⟩ := exists_of_mem_mapM h htarget
    rw [regexpTarget, bind_eq_ok_iff] at hpattern
    obtain ⟨matches_, -, hmatch⟩ := hpattern
    dsimp only at hmatch
    split at hmatch
    · cases hmatch
    · cases hmatch
      exact inCodenameOrder_of_sorted (hsorted.filter _)
  · rename_i hlisted
    cases h
    exact .inr ⟨values, hvalues, hlisted⟩
  · cases h

/-! ## Outcomes that show the order -/

/-- One testcase is worse than all other ones. -/
def worstAt (worst codename : String) : ℚ := if codename = worst then -1 else 0

theorem worstAt_nonpos (worst codename : String) : worstAt worst codename ≤ 0 := by
  unfold worstAt
  split
  · norm_num
  · exact le_refl 0

theorem outcomeAt_resultWith {publicTestcases : List (String × Bool)} {outcome : String → ℚ}
    {codename : String} (h : codename ∈ publicTestcases.map Prod.fst) :
    outcomeAt (resultWith publicTestcases outcome).evaluations codename = outcome codename := by
  rw [outcomeAt, outcomeOf_resultWith, if_pos h, Option.getD_some]

theorem firstLowest_worstAt {worst : String} (h : TargetReducible st parameter target)
    (hmem : worst ∈ target) (hshows : st.shows worst = true) :
    FirstLowest st (resultWith st.publicTestcases (worstAt worst)).evaluations target worst := by
  have hworst : outcomeAt (resultWith st.publicTestcases (worstAt worst)).evaluations worst = -1 := by
    rw [outcomeAt_resultWith (h.known worst hmem), worstAt, if_pos rfl]
  constructor
  · exact hmem
  · exact hshows
  · intro codename hcodename _
    rw [hworst, outcomeAt_resultWith (h.known codename hcodename), worstAt]
    split
    · exact le_refl _
    · norm_num
  · intro codename hcodename _ hle
    rw [hworst, outcomeAt_resultWith (h.known codename hcodename), worstAt] at hle
    split at hle
    · rename_i heq
      rw [heq]
    · exact absurd hle (by norm_num)

/-- A subtask with a testcase of outcome zero has a fraction below one. -/
theorem own_lt_one_of_zero {evaluations : List Evaluation} {own : ℚ} {codename : String}
    (h : st.ownFraction evaluations parameter target = .ok own) (hmem : codename ∈ target)
    (hzero : outcomeAt evaluations codename = 0) : own < 1 := by
  have hreduce := reduce_of_ownFraction h
  apply (reduce_lt_one_iff hreduce).2
  apply not_full_of_zero_mem hreduce
  rw [← hzero]
  exact List.mem_map_of_mem hmem

/-! ## The details of a result -/

/-- In each subtask whose fraction is below one and that is not always shown, the details have a row
for each testcase of the target, and its public rows are marked as they should be; so are
those of the public details. -/
def ShowsPrefix (st : ScoreTypeGroup) (result : ScoredResult) (targets : List (List String))
    (r : ScoreResult) : Prop :=
  ∀ parameter target index, ((parameter, target), index) ∈ (st.parameters.zip targets).zipIdx →
    ∀ own, st.ownFraction result.evaluations parameter target = .ok own → own < 1 →
      getAlwaysShowTestcases parameter = false →
      ∃ subtask publicSubtask, r.subtasks[index]? = some subtask ∧
        r.publicSubtasks[index]? = some publicSubtask ∧
        (∃ rows : List TestcaseDetails, subtask.testcases = rows.map TestcaseRow.full ∧
          rows.map TestcaseDetails.idx = target) ∧
        MarkedPrefix st result.evaluations target subtask.testcases ∧
        MarkedPrefix st result.evaluations target publicSubtask.testcases

section Details

variable {compile : String → Except PyError (String → Bool)} {targets : List (List String)}
  {r : ScoreResult}

/-- The details of the subtask at a place. -/
theorem entry_of_computeScore (hevaluated : result.evaluated = true)
    (htargets : retrieveTargetTestcases compile st.parameters (st.publicTestcases.map Prod.fst) =
      .ok targets)
    (h : st.computeScore compile result = .ok r) {index : Nat}
    (hmem : ((parameter, target), index) ∈ (st.parameters.zip targets).zipIdx) :
    ∃ entry zeroed, r.subtasks[index]? = some entry.subtask ∧
      r.publicSubtasks[index]? = some entry.publicSubtask ∧
      st.scoreSubtask result zeroed ((parameter, target), index) = .ok entry := by
  obtain ⟨targets', zeroed, entries, htargets', -, hentries, rfl⟩ :=
    (computeScore_eq_ok_iff hevaluated).1 h
  rw [htargets] at htargets'
  cases htargets'
  have hplace : (st.parameters.zip targets).zipIdx[index]? = some ((parameter, target), index) := by
    rw [List.getElem?_zipIdx, List.mem_zipIdx_iff_getElem?.1 hmem]
    simp
  obtain ⟨entry, hget, hentry⟩ := getElem?_of_mapM_eq_ok hentries hplace
  refine ⟨entry, zeroed, ?_, ?_, hentry⟩
  · show (entries.map SubtaskEntry.subtask)[index]? = _
    rw [List.getElem?_map, hget, Option.map_some]
  · show (entries.map SubtaskEntry.publicSubtask)[index]? = _
    rw [List.getElem?_map, hget, Option.map_some]

/-- Targets in the order of their codenames are shown as they should be. -/
theorem showsPrefix_of_inCodenameOrder (hevaluated : result.evaluated = true)
    (htargets : retrieveTargetTestcases compile st.parameters (st.publicTestcases.map Prod.fst) =
      .ok targets)
    (h : st.computeScore compile result = .ok r)
    (hordered : ∀ entry ∈ st.parameters.zip targets, getAlwaysShowTestcases entry.1 = false →
      InCodenameOrder st entry.2) : ShowsPrefix st result targets r := by
  intro parameter target index hmem own hown hlt hnot
  obtain ⟨entry, zeroed, hsubtask, hpublic, hentry⟩ :=
    entry_of_computeScore hevaluated htargets h hmem
  obtain ⟨testcases, own', hrows⟩ := entryRows_of_scoreSubtask hentry
  have heq : own' = own := Except.ok.inj (hrows.fraction.symm.trans hown)
  rw [← heq] at hlt
  have horder := hordered (parameter, target) (List.fst_mem_of_mem_zipIdx hmem) hnot
  have hmarked : MarkedPrefix st result.evaluations target entry.subtask.testcases :=
    (hrows.markedPrefix_iff hlt hnot).2 fun first hfirst codename hcodename hshows =>
      horder.le_iff hcodename hfirst.mem hshows hfirst.shows
  refine ⟨entry.subtask, entry.publicSubtask, hsubtask, hpublic, hrows.idx_eq, hmarked, ?_⟩
  intro first hfirst details hdetails hshows
  exact hmarked first hfirst details (hrows.full_mem hdetails) hshows

end Details

/-- Restricted feedback is right for all results exactly when the public testcases of the targets
that are not always shown stand in the order of their codenames, if there is a result that can be
scored. -/
theorem restricted_feedback_prefix_iff {compile : String → Except PyError (String → Bool)}
    {kind : GroupKind} {parameters : PyValue} {publicTestcases : List (String × Bool)}
    {scorePrecision : Nat}
    (h : ScoreTypeGroup.create compile kind parameters publicTestcases scorePrecision = .ok st) :
    ∃ targets, retrieveTargetTestcases compile st.parameters (st.publicTestcases.map Prod.fst) =
        .ok targets ∧
      ((∀ (result : ScoredResult) r, FullyEvaluated st result → st.computeScore compile result = .ok r →
          ShowsPrefix st result targets r) ↔
        ((∀ entry ∈ st.parameters.zip targets, TargetReducible st entry.1 entry.2) →
          ∀ entry ∈ st.parameters.zip targets, getAlwaysShowTestcases entry.1 = false →
            InCodenameOrder st entry.2)) := by
  obtain ⟨haccepted, -⟩ := accepted_of_create h
  obtain ⟨hcreated, -⟩ := created_of_create h
  obtain ⟨targets, htargets⟩ := haccepted.targets
  refine ⟨targets, htargets, ?_, ?_⟩
  · rintro hshows hreducible ⟨parameter, target⟩ hentry hnot c hc d hd hshowsc hshowsd hle
    -- The later one of the two is the worst testcase, so the earlier one is to be shown.
    by_contra hwrong
    obtain ⟨r, hr⟩ := computeScore_ok_of_reducible haccepted hcreated htargets hreducible
      (worstAt_nonpos d)
    have hshown := hshows _ r (fullyEvaluated_resultWith _) hr
    obtain ⟨index, hmem⟩ := exists_mem_zipIdx_of_mem hentry
    have htarget : TargetReducible st parameter target := hreducible _ hentry
    obtain ⟨entry, zeroed, hsubtask, -, hscored⟩ := entry_of_computeScore rfl htargets hr hmem
    obtain ⟨testcases, own, hrows⟩ := entryRows_of_scoreSubtask hscored
    have hne : c ≠ d := by
      rintro rfl
      exact hwrong (le_refl _)
    have hzero : outcomeAt (resultWith st.publicTestcases (worstAt d)).evaluations c = 0 := by
      rw [outcomeAt_resultWith (htarget.known c hc), worstAt, if_neg hne]
    have hlt := own_lt_one_of_zero hrows.fraction hc hzero
    obtain ⟨subtask, publicSubtask, hget, -, -, hmarked, -⟩ :=
      hshown parameter target index hmem own hrows.fraction hlt hnot
    rw [hsubtask] at hget
    cases hget
    have hiff := (hrows.markedPrefix_iff hlt hnot).1 hmarked d
      (firstLowest_worstAt htarget hd hshowsd) c hc hshowsc
    exact hwrong (hiff.2 hle)
  · intro hordered result r hfull hr
    apply showsPrefix_of_inCodenameOrder hfull.evaluated htargets hr
    apply hordered
    intro entry hentry
    have hscores := (computeScore_ok_iff hfull.evaluated htargets haccepted.ordered).1 ⟨r, hr⟩
    exact targetReducible_of_scorable (hscores entry hentry)

/-- The minimum over two public testcases, the later one by codename first. -/
def listedParameters : PyValue := .list [.list [.int 100, .list [.str "b", .str "a"]]]

def listedScoreType : ScoreTypeGroup :=
  (ScoreTypeGroup.create (fun _ => .error .typeError) .groupMin listedParameters
    [("a", true), ("b", true)] 0).toOption.get (by decide +kernel)

theorem restricted_feedback_prefix_iff_listed :
    ∃ targets, retrieveTargetTestcases (fun _ => .error .typeError) listedScoreType.parameters
        (listedScoreType.publicTestcases.map Prod.fst) = .ok targets ∧
      ((∀ (result : ScoredResult) r, FullyEvaluated listedScoreType result →
          listedScoreType.computeScore (fun _ => .error .typeError) result = .ok r →
          ShowsPrefix listedScoreType result targets r) ↔
        ((∀ entry ∈ listedScoreType.parameters.zip targets,
            TargetReducible listedScoreType entry.1 entry.2) →
          ∀ entry ∈ listedScoreType.parameters.zip targets,
            getAlwaysShowTestcases entry.1 = false → InCodenameOrder listedScoreType entry.2)) :=
  restricted_feedback_prefix_iff (eq_ok_of_toOption (Option.some_get _).symm :
    ScoreTypeGroup.create (fun _ => .error .typeError) .groupMin listedParameters
      [("a", true), ("b", true)] 0 = .ok listedScoreType)

/-- The first testcase of the target is right, the second one is not. -/
def listedResult : ScoredResult :=
  resultWith listedScoreType.publicTestcases fun codename => if codename = "a" then 0 else 1

def listedDetails : ScoreResult :=
  (listedScoreType.computeScore (fun _ => .error .typeError) listedResult).toOption.get
    (by decide +kernel)

/-- The row of the first testcase. -/
def unmarkedRow : TestcaseDetails where
  idx := "b"
  outcome := "Correct"
  text := []
  time := none
  timeLimit := none
  timeLimitWasExceeded := false
  memory := none
  showInRestrictedFeedback := false
  showInOiRestrictedFeedback := false
  skipped := false

/-- The first testcase of the target is not shown. -/
theorem listed_testcase_not_shown :
    ScoreTypeGroup.create (fun _ => .error .typeError) .groupMin listedParameters
        [("a", true), ("b", true)] 0 = .ok listedScoreType ∧
      retrieveTargetTestcases (fun _ => .error .typeError) listedScoreType.parameters
        (listedScoreType.publicTestcases.map Prod.fst) = .ok [["b", "a"]] ∧
      FullyEvaluated listedScoreType listedResult ∧
      listedScoreType.computeScore (fun _ => .error .typeError) listedResult = .ok listedDetails ∧
      ¬ShowsPrefix listedScoreType listedResult [["b", "a"]] listedDetails := by
  refine ⟨eq_ok_of_toOption (Option.some_get _).symm, by decide +kernel,
    fullyEvaluated_resultWith _, eq_ok_of_toOption (Option.some_get _).symm, ?_⟩
  intro hshows
  obtain ⟨parameter, hparameter⟩ : ∃ parameter, listedScoreType.parameters = [parameter] :=
    List.length_eq_one_iff.1 (by decide +kernel)
  have hown : listedScoreType.parameters.map
      (fun parameter => listedScoreType.ownFraction listedResult.evaluations parameter ["b", "a"]) =
        [.ok 0] := by
    decide +kernel
  have hnot : listedScoreType.parameters.map getAlwaysShowTestcases = [false] := by
    decide +kernel
  have hmem : ((parameter, ["b", "a"]), 0) ∈
      (listedScoreType.parameters.zip [["b", "a"]]).zipIdx := by
    simp [hparameter]
  rw [hparameter, List.map_singleton, List.singleton_inj] at hown hnot
  obtain ⟨subtask, -, hsubtask, -, -, hmarked, -⟩ :=
    hshows parameter ["b", "a"] 0 hmem 0 hown (by norm_num) hnot
  have hrow : (listedDetails.subtasks[0]?).map (fun s => decide
      (TestcaseRow.full unmarkedRow ∈ s.testcases)) = some true := by
    decide +kernel
  rw [hsubtask, Option.map_some, Option.some.injEq, decide_eq_true_iff] at hrow
  have hfirst : FirstLowest listedScoreType listedResult.evaluations ["b", "a"] "a" :=
    argmin_eq_some_iff_firstLowest.1 (by decide +kernel)
  have hmarks := hmarked "a" hfirst unmarkedRow hrow (by decide +kernel)
  have hshown := hmarks.restricted.2 (by decide +kernel)
  cases hshown

end Grading
end ContestManagement
