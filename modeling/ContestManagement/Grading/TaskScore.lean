import ContestManagement.Grading.ScoreBounds
import ContestManagement.Lib.Dict
import ContestManagement.Lib.Maxima
import Mathlib.Algebra.BigOperators.Group.Finset.Basic

/-!
# The score of a participation on a task

`task_score` of `cms/grading/scoring.py` with its three score modes.  A participation is its
user and its submissions, each with its result on the active dataset; a result that is missing
or not scored is `none`.

For results of a group score type the three modes are maxima: of the scores, of the scores with
a token and the last one, and of the points of each subtask.
-/

namespace ContestManagement
namespace Grading
namespace TaskScore

open Lib
open Decimal (roundTo HasDecimals)

/-- A submission with its scored result. -/
structure Submission where
  id : Nat
  task : String
  official : Bool
  timestamp : ℚ
  /-- The timestamp of its token. -/
  token : Option ℚ
  result : Option ScoreResult
  deriving DecidableEq, Repr

/-- `tokened`. -/
def Submission.tokened (s : Submission) : Bool := s.token.isSome

structure Participation where
  username : String
  submissions : List Submission

structure Task where
  name : String
  scoreMode : String
  scorePrecision : Nat

/-- An element of `score_details_tokened`: the score and the details, unless the score mode has
to ignore them, and whether the submission is tokened. -/
structure TokenedScore where
  scored : Option (ℚ × List SubtaskDetails)
  tokened : Bool
  deriving DecidableEq, Repr

/-! ## The score modes -/

/-- `_task_score_max`. -/
def taskScoreMax (scores : List TokenedScore) : ℚ :=
  scores.foldl (fun maxScore entry =>
    match entry.scored with
    | some (score, _) => max maxScore score
    | none => maxScore) 0

/-- `_task_score_max_tokened_last`. -/
def taskScoreMaxTokenedLast (scores : List TokenedScore) : ℚ :=
  let lastScore :=
    match scores.getLast? with
    | some ⟨some (score, _), _⟩ => score
    | _ => 0
  let maxTokenedScore := scores.foldl (fun maxScore entry =>
    match entry.scored with
    | some (score, _) => if entry.tokened then max maxScore score else maxScore
    | none => maxScore) 0
  max lastScore maxTokenedScore

/-- The dictionary from the index of each subtask to its score, unless a score is missing. -/
def subtaskScores (details : List SubtaskDetails) : Option (Dict Nat ℚ) :=
  let items := details.mapM fun subtask : SubtaskDetails =>
    subtask.scores.map fun scores => (subtask.idx, scores.score)
  items.map fun items => items.foldl (fun d item => d.set item.1 item.2) Dict.empty

/-- The scores of the subtasks; without them there is one subtask. -/
def subtaskScoresOr (score : ℚ) (details : List SubtaskDetails) : Dict Nat ℚ :=
  match subtaskScores details with
  | some scores => if scores.items = [] then Dict.singleton 1 score else scores
  | none => Dict.singleton 1 score

/-- Raise the maxima of the subtasks to some scores. -/
def raiseMaxima (maxScores : Dict Nat ℚ) (scores : List (Nat × ℚ)) : Dict Nat ℚ :=
  scores.foldl (fun d item => d.set item.1 (max ((d.get? item.1).getD 0) item.2)) maxScores

/-- The maxima of the subtasks after a submission. -/
def addSubtasks (maxScores : Dict Nat ℚ) (entry : TokenedScore) : Dict Nat ℚ :=
  match entry.scored with
  | none => maxScores
  | some (score, details) =>
      -- The submission did not compile.
      if details = [] ∧ score = 0 then maxScores
      else raiseMaxima maxScores (subtaskScoresOr score details).items

/-- `_task_score_max_subtask`. -/
def taskScoreMaxSubtask (scores : List TokenedScore) : ℚ :=
  ((scores.foldl addSubtasks Dict.empty).items.map Prod.snd).sum

/-- What the score mode gets for a submission. -/
def Submission.tokenedScore (s : Submission) (public_ onlyTokened : Bool) : TokenedScore :=
  match s.result with
  | none => ⟨none, s.tokened⟩
  | some r =>
      if public_ then ⟨some (r.publicScore, r.publicSubtasks), s.tokened⟩
      else if onlyTokened ∧ ¬s.tokened then ⟨none, s.tokened⟩
      else ⟨some (r.score, r.subtasks), s.tokened⟩

/-- The score that a score mode gives. -/
def scoreByMode (scoreMode : String) (scores : List TokenedScore) : Except PyError ℚ :=
  if scoreMode = "max" then .ok (taskScoreMax scores)
  else if scoreMode = "max_subtask" then .ok (taskScoreMaxSubtask scores)
  else if scoreMode = "max_tokened_last" then .ok (taskScoreMaxTokenedLast scores)
  else .error (.valueError ("Unknown score mode '" ++ scoreMode ++ "'"))

/-- `task_score`: the score, and whether a submission is not scored yet. -/
def taskScore (participation : Participation) (task : Task) (public_ onlyTokened : Bool) :
    Except PyError (ℚ × Bool) :=
  if public_ ∧ onlyTokened then
    .error (.valueError ("Requested public task score restricted to tokened submissions. " ++
      "This is a programming error: users have access to all public " ++
      "scores regardless of token status."))
  else
    let submissions := participation.submissions.filter fun s => s.task = task.name ∧ s.official
    if submissions = [] then .ok (0, false)
    else do
      let sorted := submissions.insertionSort fun s s' => s.timestamp ≤ s'.timestamp
      let score ← scoreByMode task.scoreMode
        (sorted.map fun s => s.tokenedScore public_ onlyTokened)
      return (roundTo task.scorePrecision score, sorted.any fun s => s.result.isNone)

/-! ## Results of a group score type -/

/-- The points of a subtask, zero for one that the details do not have. -/
def pointsAt (r : ScoreResult) (index : Nat) : ℚ :=
  (r.subtasks.map SubtaskDetails.points).getD index 0

/-- What the results of a group score type have in common, those of submissions that did not
compile included. -/
structure Grouped (subtaskCount digits : Nat) (r : ScoreResult) : Prop where
  rows : ∀ (index : Nat) (subtask : SubtaskDetails), r.subtasks[index]? = some subtask →
    subtask.idx = index ∧ ∃ scores, subtask.scores = some scores
  score : r.score = (r.subtasks.map SubtaskDetails.points).sum
  decimals : ∀ subtask ∈ r.subtasks, HasDecimals digits subtask.points
  details : ∀ (index : Nat) (text : String), r.rankingDetails[index]? = some text →
    text = Decimal.formatG (pointsAt r index)
  shown : r.subtasks.length ≤ r.rankingDetails.length
  count : r.rankingDetails.length ≤ subtaskCount

theorem grouped_of_computeScore {st : ScoreTypeGroup}
    {compile : String → Except PyError (String → Bool)} {result : ScoredResult} {r : ScoreResult}
    (h : st.computeScore compile result = .ok r) :
    Grouped st.parameters.length result.scorePrecision r := by
  cases hevaluated : result.evaluated with
  | false =>
      simp only [ScoreTypeGroup.computeScore, hevaluated, Bool.false_eq_true, not_false_eq_true,
        if_true, Except.ok.injEq] at h
      subst h
      refine ⟨fun index subtask hrow => ?_, rfl, fun subtask hmem => ?_, fun index text htext => ?_,
        Nat.zero_le _, (List.length_map _).le⟩
      · simp at hrow
      · simp at hmem
      · rw [List.getElem?_map, Option.map_eq_some_iff] at htext
        obtain ⟨_, -, rfl⟩ := htext
        simp [pointsAt]
  | true =>
      obtain ⟨targets, zeroed, entries, -, -, hentries, rfl⟩ := (computeScore_eq_ok_iff hevaluated).1 h
      have hscored : ∀ (index : Nat) (entry : SubtaskEntry), entries[index]? = some entry →
          ∃ parameter target,
            st.scoreSubtask result zeroed ((parameter, target), index) = .ok entry := by
        intro index entry hentry
        obtain ⟨hlt, rfl⟩ := List.getElem?_eq_some_iff.1 hentry
        have hall := mapM_eq_ok_iff.1 hentries
        have hlt' : index < (st.parameters.zip targets).zipIdx.length := hall.length_eq ▸ hlt
        have hget := hall.get hlt' hlt
        simp only [List.get_eq_getElem, List.getElem_zipIdx, Nat.zero_add] at hget
        exact ⟨_, _, hget⟩
      have hpointed : ∀ entry ∈ entries, Pointed result.scorePrecision entry := by
        intro entry hentry
        obtain ⟨index, hindex⟩ := List.mem_iff_getElem?.1 hentry
        obtain ⟨parameter, target, hentry'⟩ := hscored index entry hindex
        exact pointed_of_scoreSubtask hentry'
      have hlength : entries.length ≤ st.parameters.length := by
        rw [length_of_mapM_eq_ok hentries, List.length_zipIdx, List.length_zip]
        exact min_le_left _ _
      have hpoints : ((resultOf result.scorePrecision entries).subtasks.map SubtaskDetails.points) =
          entries.map SubtaskEntry.roundedScore := map_points hpointed
      refine ⟨fun index subtask hrow => ?_, ?_, fun subtask hmem => ?_, fun index text htext => ?_,
        ?_, ?_⟩
      · simp only [resultOf, List.getElem?_map, Option.map_eq_some_iff] at hrow
        obtain ⟨entry, hentry, rfl⟩ := hrow
        obtain ⟨parameter, target, hentry'⟩ := hscored index entry hentry
        obtain ⟨own, maxScore, -, -, -, hsummary⟩ := scoreSubtask_spec hentry'
        have hidx : entry.subtask.idx = index := congrArg SubtaskSummary.idx hsummary
        have hscores := congrArg SubtaskSummary.scores hsummary
        exact ⟨hidx, _, hscores⟩
      · rw [hpoints]
        exact score_eq_sum hpointed
      · obtain ⟨entry, hentry, rfl⟩ := List.mem_map.1 hmem
        rw [(hpointed entry hentry).points]
        exact (hpointed entry hentry).decimals
      · simp only [resultOf, List.getElem?_map, Option.map_eq_some_iff] at htext
        obtain ⟨entry, hentry, rfl⟩ := htext
        obtain ⟨parameter, target, hentry'⟩ := hscored index entry hentry
        obtain ⟨own, maxScore, -, -, -, hsummary⟩ := scoreSubtask_spec hentry'
        have hdetail : entry.rankingDetail = Decimal.formatG entry.roundedScore := by
          have htext := congrArg SubtaskSummary.rankingDetail hsummary
          have hrounded := congrArg SubtaskSummary.roundedScore hsummary
          simp only [SubtaskEntry.summary, summaryOf] at htext hrounded
          rw [htext, hrounded]
        rw [hdetail, pointsAt, hpoints]
        simp [List.getD, hentry]
      · simp [resultOf]
      · simpa [resultOf] using hlength

/-! ## The maxima of the subtasks -/

theorem get?_raiseMaxima {scores : List (Nat × ℚ)} (hdistinct : (scores.map Prod.fst).Nodup)
    (d : Dict Nat ℚ) (index : Nat) :
    (raiseMaxima d scores).get? index =
      match scores.lookup index with
      | some q => some (max ((d.get? index).getD 0) q)
      | none => d.get? index := by
  unfold raiseMaxima
  induction scores generalizing d with
  | nil => rfl
  | cons item rest ih =>
      rw [List.map_cons, List.nodup_cons] at hdistinct
      rw [List.foldl_cons, ih hdistinct.2, Dict.lookup_item, Dict.get?_set]
      by_cases heq : index = item.1
      · -- No other item raises the maximum of the first one.
        have hrest : rest.lookup item.1 = none := by
          rw [List.lookup_eq_none_iff]
          intro other hother
          have hne : item.1 ≠ other.1 := fun h =>
            hdistinct.1 (List.mem_map.2 ⟨other, hother, h.symm⟩)
          simpa using hne
        rw [heq, hrest, if_pos rfl, if_pos rfl]
      · rw [if_neg heq, if_neg heq]

variable {subtaskCount digits : Nat} {r : ScoreResult}

/-- The subtasks of a result can all be read. -/
theorem Grouped.subtaskScores (hr : Grouped subtaskCount digits r) :
    ∃ d : Dict Nat ℚ, TaskScore.subtaskScores r.subtasks = some d ∧
      ∀ index, d.get? index =
        if index < r.subtasks.length then some (pointsAt r index) else none := by
  -- The items are the indices with the points.
  have hitems : ∀ (rows : List SubtaskDetails) (start : Nat),
      (∀ (index : Nat) (subtask : SubtaskDetails), rows[index]? = some subtask →
        subtask.idx = start + index ∧ ∃ scores, subtask.scores = some scores) →
      (rows.mapM fun subtask : SubtaskDetails =>
        subtask.scores.map fun scores => (subtask.idx, scores.score)) =
      some ((rows.map SubtaskDetails.points).zipIdx start |>.map Prod.swap) := by
    intro rows
    induction rows with
    | nil =>
        intro start _
        rfl
    | cons subtask rest ih =>
        intro start hrows
        obtain ⟨hidx, scores, hscores⟩ := hrows 0 subtask rfl
        have hrest := ih (start + 1) fun index other hother => by
          obtain ⟨hidx', hscores'⟩ := hrows (index + 1) other hother
          exact ⟨by omega, hscores'⟩
        have hpoints : subtask.points = scores.score := by
          unfold SubtaskDetails.points
          rw [hscores]
        rw [List.mapM_cons, hrest, hscores, List.map_cons, List.zipIdx_cons, List.map_cons, hpoints,
          hidx]
        rfl
  have hall := hitems r.subtasks 0 fun index subtask hrow => by
    rw [Nat.zero_add]
    exact hr.rows index subtask hrow
  have hfst : (((r.subtasks.map SubtaskDetails.points).zipIdx.map Prod.swap).map Prod.fst) =
      List.range r.subtasks.length := by
    rw [List.map_map]
    simp [Function.comp_def, List.range_eq_range']
  have hdistinct : (((r.subtasks.map SubtaskDetails.points).zipIdx.map Prod.swap).map
      Prod.fst).Nodup := by
    rw [hfst]
    exact List.nodup_range
  refine ⟨Dict.empty.update ⟨_, hdistinct⟩, ?_, fun index => ?_⟩
  · unfold TaskScore.subtaskScores
    rw [hall]
    rfl
  · rw [Dict.get?_update, Dict.get?_empty, Option.or_none]
    refine Option.ext fun q => ?_
    rw [← Dict.mem_items_iff]
    simp only [List.mem_map, Prod.exists, Prod.swap_prod_mk, Prod.mk.injEq,
      List.mem_zipIdx_iff_getElem?, pointsAt, List.getD]
    constructor
    · rintro ⟨q', index', hget, rfl, rfl⟩
      have hlt : index' < r.subtasks.length := by
        obtain ⟨hlt, -⟩ := List.getElem?_eq_some_iff.1 hget
        simpa using hlt
      rw [if_pos hlt, hget, Option.getD_some]
    · intro hq
      split at hq
      case isTrue hlt =>
        have hlt' : index < (r.subtasks.map SubtaskDetails.points).length := by simpa using hlt
        rw [List.getElem?_eq_getElem hlt', Option.getD_some, Option.some.injEq] at hq
        exact ⟨q, index, by rw [List.getElem?_eq_getElem hlt', hq], rfl, rfl⟩
      case isFalse => cases hq

/-- What a submission does to the maxima. -/
theorem Grouped.get?_addSubtasks (hr : Grouped subtaskCount digits r) (d : Dict Nat ℚ)
    (tokened : Bool) (index : Nat) :
    (addSubtasks d ⟨some (r.score, r.subtasks), tokened⟩).get? index =
      if index < r.subtasks.length then some (max ((d.get? index).getD 0) (pointsAt r index))
      else d.get? index := by
  show (if r.subtasks = [] ∧ r.score = 0 then d
    else raiseMaxima d (subtaskScoresOr r.score r.subtasks).items).get? index = _
  cases hsubtasks : r.subtasks with
  | nil =>
      have hscore : r.score = 0 := by rw [hr.score, hsubtasks]; rfl
      rw [if_pos ⟨rfl, hscore⟩, if_neg (by simp)]
  | cons subtask rest =>
      obtain ⟨scores, hscores, hget⟩ := hr.subtaskScores
      have hlookup : ∀ i, scores.items.lookup i = _ := hget
      have hsome : scores.items ≠ [] := by
        intro hnil
        have hfirst := hlookup 0
        rw [hnil, hsubtasks, if_pos (by simp)] at hfirst
        cases hfirst
      have hitems : (subtaskScoresOr r.score (subtask :: rest)).items = scores.items := by
        rw [subtaskScoresOr, ← hsubtasks, hscores]
        exact congrArg Dict.items (if_neg hsome)
      rw [if_neg (fun h => List.cons_ne_nil _ _ h.1), hitems, get?_raiseMaxima scores.distinct,
        hlookup, hsubtasks]
      split <;> rename_i hlt
      · split at hlt
        case isTrue hlt' =>
          rw [if_pos hlt', Option.some.inj hlt]
        case isFalse => cases hlt
      · split at hlt
        case isTrue => cases hlt
        case isFalse hge => rw [if_neg hge]

/-- The sum of a dictionary whose keys are below a bound. -/
theorem sum_values {d : Dict Nat ℚ} {count : Nat} (h : ∀ key ∈ d.keys, key < count) :
    (d.items.map Prod.snd).sum = ((List.range count).map fun index => (d.get? index).getD 0).sum := by
  have hvalues : d.items.map Prod.snd = d.keys.map fun key => (d.get? key).getD 0 := by
    rw [Dict.keys, List.map_map]
    refine List.map_congr_left fun item hitem => ?_
    have hget : d.get? item.1 = some item.2 := Dict.mem_items_iff.1 hitem
    simp [hget]
  have hrange : (List.range count).toFinset = Finset.range count := by
    ext index
    simp
  have hkeys : d.keys.Nodup := d.distinct
  rw [hvalues, ← List.sum_toFinset _ hkeys, ← List.sum_toFinset _ List.nodup_range, hrange]
  apply Finset.sum_subset
  · intro key hkey
    exact Finset.mem_range.2 (h key (List.mem_toFinset.1 hkey))
  · intro key _ hkey
    cases hget : d.get? key with
    | none => rfl
    | some q => exact absurd (List.mem_toFinset.2 (Dict.mem_keys_iff.2 ⟨q, hget⟩)) hkey

/-! ## What the modes give -/

/-- The score of a submission, zero as long as it is not scored. -/
def Submission.score (s : Submission) : ℚ :=
  match s.result with
  | some r => r.score
  | none => 0

/-- The points of a submission in a subtask. -/
def Submission.points (s : Submission) (index : Nat) : ℚ :=
  match s.result with
  | some r => pointsAt r index
  | none => 0

/-- The best score. -/
def bestScore (submissions : List Submission) : ℚ :=
  (submissions.map Submission.score).foldl max 0

/-- The best points in a subtask. -/
def bestPoints (submissions : List Submission) (index : Nat) : ℚ :=
  (submissions.map fun s => s.points index).foldl max 0

/-- The sum of the best points in the subtasks. -/
def bestTotal (subtaskCount : Nat) (submissions : List Submission) : ℚ :=
  ((List.range subtaskCount).map (bestPoints submissions)).sum

/-- The submission has a result of a group score type without negative points. -/
def Graded (subtaskCount digits : Nat) (s : Submission) : Prop :=
  ∃ r, s.result = some r ∧ Grouped subtaskCount digits r ∧ ∀ subtask ∈ r.subtasks, 0 ≤ subtask.points

section Modes

variable {submissions others : List Submission} {s : Submission}

theorem Graded.tokenedScore (h : Graded subtaskCount digits s) :
    ∃ r, s.tokenedScore false false = ⟨some (r.score, r.subtasks), s.tokened⟩ ∧
      Grouped subtaskCount digits r ∧ s.score = r.score ∧ ∀ index, s.points index = pointsAt r index := by
  obtain ⟨r, hresult, hr, -⟩ := h
  refine ⟨r, ?_, hr, ?_, fun index => ?_⟩
  · simp [Submission.tokenedScore, hresult]
  · simp [Submission.score, hresult]
  · simp [Submission.points, hresult]

theorem Graded.points_nonneg (h : Graded subtaskCount digits s) (index : Nat) : 0 ≤ s.points index := by
  obtain ⟨r, hresult, -, hnonneg⟩ := h
  simp only [Submission.points, hresult, pointsAt, List.getD]
  cases hget : (r.subtasks.map SubtaskDetails.points)[index]? with
  | none => exact le_refl 0
  | some q =>
      obtain ⟨subtask, hsubtask, rfl⟩ := List.mem_map.1 (List.mem_of_getElem? hget)
      exact hnonneg subtask hsubtask

theorem Graded.score_nonneg (h : Graded subtaskCount digits s) : 0 ≤ s.score := by
  obtain ⟨r, hresult, hr, hnonneg⟩ := h
  simp only [Submission.score, hresult, hr.score]
  apply List.sum_nonneg
  intro q hq
  obtain ⟨subtask, hsubtask, rfl⟩ := List.mem_map.1 hq
  exact hnonneg subtask hsubtask

theorem Graded.score_hasDecimals (h : Graded subtaskCount digits s) : HasDecimals digits s.score := by
  obtain ⟨r, hresult, hr, -⟩ := h
  simp only [Submission.score, hresult, hr.score]
  apply Decimal.hasDecimals_sum
  intro q hq
  obtain ⟨subtask, hsubtask, rfl⟩ := List.mem_map.1 hq
  exact hr.decimals subtask hsubtask

theorem Graded.points_hasDecimals (h : Graded subtaskCount digits s) (index : Nat) :
    HasDecimals digits (s.points index) := by
  obtain ⟨r, hresult, hr, -⟩ := h
  simp only [Submission.points, hresult, pointsAt, List.getD]
  cases hget : (r.subtasks.map SubtaskDetails.points)[index]? with
  | none => exact Decimal.hasDecimals_zero digits
  | some q =>
      obtain ⟨subtask, hsubtask, rfl⟩ := List.mem_map.1 (List.mem_of_getElem? hget)
      exact hr.decimals subtask hsubtask

/-- A maximum of numbers with so many decimals has so many decimals. -/
theorem hasDecimals_foldl_max {values : List ℚ} (h : ∀ q ∈ values, HasDecimals digits q) :
    HasDecimals digits (values.foldl max 0) := by
  obtain ⟨-, -, hstart | hmem⟩ := foldl_max_spec values 0
  · rw [hstart]
    exact Decimal.hasDecimals_zero digits
  · exact h _ hmem

theorem bestTotal_hasDecimals (h : ∀ s ∈ submissions, Graded subtaskCount digits s) :
    HasDecimals digits (bestTotal subtaskCount submissions) := by
  apply Decimal.hasDecimals_sum
  intro q hq
  obtain ⟨index, -, rfl⟩ := List.mem_map.1 hq
  apply hasDecimals_foldl_max
  intro q hq
  obtain ⟨s, hs, rfl⟩ := List.mem_map.1 hq
  exact (h s hs).points_hasDecimals index

theorem bestScore_hasDecimals (h : ∀ s ∈ submissions, Graded subtaskCount digits s) :
    HasDecimals digits (bestScore submissions) := by
  apply hasDecimals_foldl_max
  intro q hq
  obtain ⟨s, hs, rfl⟩ := List.mem_map.1 hq
  exact (h s hs).score_hasDecimals

theorem taskScoreMax_eq (h : ∀ s ∈ submissions, Graded subtaskCount digits s) :
    taskScoreMax (submissions.map fun s => s.tokenedScore false false) = bestScore submissions := by
  unfold taskScoreMax bestScore
  generalize (0 : ℚ) = start
  induction submissions generalizing start with
  | nil => rfl
  | cons s rest ih =>
      rw [List.forall_mem_cons] at h
      obtain ⟨r, hscore, -, hr, -⟩ := h.1.tokenedScore
      simp only [List.map_cons, List.foldl_cons, hscore, hr]
      exact ih h.2 _

theorem taskScoreMaxTokenedLast_eq (h : ∀ s ∈ submissions, Graded subtaskCount digits s)
    (hlast : submissions.getLast? = some s) :
    taskScoreMaxTokenedLast (submissions.map fun s => s.tokenedScore false false) =
      max s.score (bestScore (submissions.filter Submission.tokened)) := by
  obtain ⟨r, hscore, -, hr, -⟩ := (h s (List.mem_of_getLast? hlast)).tokenedScore
  unfold taskScoreMaxTokenedLast
  rw [List.getLast?_map, hlast, Option.map_some, hscore, hr]
  unfold bestScore
  generalize (0 : ℚ) = start
  clear hlast
  induction submissions generalizing start with
  | nil => rfl
  | cons s rest ih =>
      rw [List.forall_mem_cons] at h
      obtain ⟨r, hscore, -, hr, -⟩ := h.1.tokenedScore
      rw [List.filter_cons]
      simp only [List.map_cons, List.foldl_cons, hscore]
      split
      · rw [List.map_cons, List.foldl_cons, hr]
        exact ih h.2 _
      · exact ih h.2 _

/-- After each submission the dictionary has the best points so far. -/
theorem maxima_spec (h : ∀ s ∈ submissions, Graded subtaskCount digits s) :
    let d := (submissions.map fun s => s.tokenedScore false false).foldl addSubtasks Dict.empty
    (∀ index, (d.get? index).getD 0 = bestPoints submissions index) ∧
      ∀ key ∈ d.keys, key < subtaskCount := by
  induction submissions using List.reverseRecOn with
  | nil =>
      refine ⟨fun index => rfl, fun key hkey => ?_⟩
      obtain ⟨q, hq⟩ := Dict.mem_keys_iff.1 hkey
      cases hq
  | append_singleton submissions s ih =>
      obtain ⟨hbest, hkeys⟩ := ih fun s' hs' => h s' (List.mem_append_left _ hs')
      have hs := h s (by simp)
      obtain ⟨r, hscore, hr, -, hpoints⟩ := hs.tokenedScore
      have hadd : ((submissions ++ [s]).map fun s => s.tokenedScore false false).foldl addSubtasks
          Dict.empty = addSubtasks ((submissions.map fun s => s.tokenedScore false false).foldl
            addSubtasks Dict.empty) ⟨some (r.score, r.subtasks), s.tokened⟩ := by
        rw [List.map_append, List.foldl_append, List.map_singleton, hscore]
        rfl
      dsimp only at hbest hkeys ⊢
      rw [hadd]
      constructor
      · intro index
        have hconcat : bestPoints (submissions ++ [s]) index =
            max (bestPoints submissions index) (s.points index) := by
          rw [bestPoints, List.map_append, List.map_singleton, foldl_max_concat]
          rfl
        rw [hr.get?_addSubtasks, hconcat, hpoints, ← hbest]
        split
        case isTrue => rfl
        case isFalse hge =>
          -- A subtask that the submission does not have gets no points from it.
          have hzero : pointsAt r index = 0 := by
            rw [pointsAt, List.getD, List.getElem?_eq_none (by simpa using not_lt.1 hge)]
            rfl
          have hpositive : 0 ≤ bestPoints submissions index := le_foldl_max _ _
          rw [hzero, max_eq_left]
          rw [hbest]
          exact hpositive
      · intro key hkey
        obtain ⟨q, hq⟩ := Dict.mem_keys_iff.1 hkey
        rw [hr.get?_addSubtasks] at hq
        split at hq
        case isTrue hlt => exact hlt.trans_le (hr.shown.trans hr.count)
        case isFalse => exact hkeys key (Dict.mem_keys_iff.2 ⟨q, hq⟩)

theorem taskScoreMaxSubtask_eq (h : ∀ s ∈ submissions, Graded subtaskCount digits s) :
    taskScoreMaxSubtask (submissions.map fun s => s.tokenedScore false false) =
      bestTotal subtaskCount submissions := by
  obtain ⟨hbest, hkeys⟩ := maxima_spec h
  rw [taskScoreMaxSubtask, sum_values hkeys, bestTotal]
  exact congrArg List.sum (List.map_congr_left fun index _ => hbest index)

/-! ### The order of the submissions -/

theorem bestScore_perm (h : submissions.Perm others) : bestScore submissions = bestScore others :=
  foldl_max_perm (h.map _) 0

theorem bestTotal_perm (h : submissions.Perm others) :
    bestTotal subtaskCount submissions = bestTotal subtaskCount others := by
  exact congrArg List.sum (List.map_congr_left fun index _ => foldl_max_perm (h.map _) 0)

end Modes

/-! ## The score of a task -/

section Task

variable {participation : Participation} {task : Task} {s : Submission}

/-- The submissions in the order of their timestamps. -/
def sortedSubmissions (submissions : List Submission) : List Submission :=
  submissions.insertionSort fun s s' => s.timestamp ≤ s'.timestamp

theorem sortedSubmissions_perm (submissions : List Submission) :
    (sortedSubmissions submissions).Perm submissions :=
  List.perm_insertionSort _ _

/-- The last submission in the order of the timestamps comes after all the others. -/
theorem getLast?_sortedSubmissions {submissions : List Submission}
    (hdistinct : (submissions.map Submission.timestamp).Nodup) (hmem : s ∈ submissions)
    (hlatest : ∀ s' ∈ submissions, s'.timestamp ≤ s.timestamp) :
    (sortedSubmissions submissions).getLast? = some s := by
  have hperm := sortedSubmissions_perm submissions
  have hsorted : (sortedSubmissions submissions).Pairwise fun s s' => s.timestamp ≤ s'.timestamp := by
    have htotal : Std.Total fun s s' : Submission => s.timestamp ≤ s'.timestamp :=
      ⟨fun s s' => le_total _ _⟩
    have htrans : IsTrans Submission fun s s' => s.timestamp ≤ s'.timestamp :=
      ⟨fun s s' s'' => le_trans⟩
    exact List.pairwise_insertionSort _ _
  rcases List.eq_nil_or_concat' (sortedSubmissions submissions) with hnil | ⟨before, last, hconcat⟩
  · rw [← hperm.mem_iff, hnil] at hmem
    cases hmem
  · have hlast : last ∈ submissions := hperm.mem_iff.1 (by simp [hconcat])
    have hle : s.timestamp ≤ last.timestamp := by
      rw [← hperm.mem_iff, hconcat] at hmem
      rcases List.mem_append.1 hmem with hbefore | hself
      · rw [hconcat] at hsorted
        exact (List.pairwise_append.1 hsorted).2.2 s hbefore last (by simp)
      · rw [List.mem_singleton.1 hself]
    have hsame : last = s :=
      List.inj_on_of_nodup_map hdistinct hlast hmem (le_antisymm (hlatest last hlast) hle)
    rw [hconcat, List.getLast?_concat, hsame]

variable (hofficial : ∀ s ∈ participation.submissions, s.task = task.name ∧ s.official = true)

include hofficial

theorem filter_official :
    (participation.submissions.filter fun s => s.task = task.name ∧ s.official) =
      participation.submissions :=
  List.filter_eq_self.2 fun s hs => by simpa using hofficial s hs

/-- A participation without submissions. -/
theorem taskScore_of_nil (hnil : participation.submissions = []) :
    taskScore participation task false false = .ok (0, false) := by
  unfold taskScore
  dsimp only
  rw [filter_official hofficial, if_neg (by simp), if_pos hnil]

/-- All the submissions are scored: the score of the mode, rounded. -/
theorem taskScore_of_mode (hne : participation.submissions ≠ [])
    (hgraded : ∀ s ∈ participation.submissions, Graded subtaskCount task.scorePrecision s) {score : ℚ}
    (hmode : scoreByMode task.scoreMode ((sortedSubmissions participation.submissions).map
      fun s => s.tokenedScore false false) = .ok score)
    (hdecimals : HasDecimals task.scorePrecision score) :
    taskScore participation task false false = .ok (score, false) := by
  have hscored : (sortedSubmissions participation.submissions).any (fun s => s.result.isNone) =
      false := by
    rw [List.any_eq_false]
    intro s hs
    obtain ⟨r, hresult, -⟩ := hgraded s ((sortedSubmissions_perm _).mem_iff.1 hs)
    simp [hresult]
  unfold taskScore
  dsimp only
  rw [filter_official hofficial, if_neg (by simp), if_neg hne]
  show (scoreByMode task.scoreMode ((sortedSubmissions participation.submissions).map
    fun s => s.tokenedScore false false) >>= fun score => .ok (roundTo task.scorePrecision score,
      (sortedSubmissions participation.submissions).any fun s => s.result.isNone)) = _
  rw [hmode, ok_bind, hscored, Decimal.roundTo_eq_self_iff.2 hdecimals]

section Scored

variable (hne : participation.submissions ≠ [])
  (hgraded : ∀ s ∈ participation.submissions, Graded subtaskCount task.scorePrecision s)

include hne hgraded

theorem taskScore_max (hmode : task.scoreMode = "max") :
    taskScore participation task false false =
      .ok (bestScore participation.submissions, false) := by
  have hperm := sortedSubmissions_perm participation.submissions
  apply taskScore_of_mode hofficial hne hgraded
  · rw [hmode, scoreByMode, if_pos rfl,
      taskScoreMax_eq fun s hs => hgraded s (hperm.mem_iff.1 hs), bestScore_perm hperm]
  · exact bestScore_hasDecimals hgraded

theorem taskScore_maxSubtask (hmode : task.scoreMode = "max_subtask") :
    taskScore participation task false false =
      .ok (bestTotal subtaskCount participation.submissions, false) := by
  have hperm := sortedSubmissions_perm participation.submissions
  apply taskScore_of_mode hofficial hne hgraded
  · rw [hmode, scoreByMode, if_neg (by decide), if_pos rfl,
      taskScoreMaxSubtask_eq fun s hs => hgraded s (hperm.mem_iff.1 hs), bestTotal_perm hperm]
  · exact bestTotal_hasDecimals hgraded

theorem taskScore_maxTokenedLast (hmode : task.scoreMode = "max_tokened_last")
    (hdistinct : (participation.submissions.map Submission.timestamp).Nodup)
    (hmem : s ∈ participation.submissions)
    (hlatest : ∀ s' ∈ participation.submissions, s'.timestamp ≤ s.timestamp) :
    taskScore participation task false false =
      .ok (max s.score (bestScore (participation.submissions.filter Submission.tokened)), false) := by
  have hperm := sortedSubmissions_perm participation.submissions
  apply taskScore_of_mode hofficial hne hgraded
  · rw [hmode, scoreByMode, if_neg (by decide), if_neg (by decide), if_pos rfl,
      taskScoreMaxTokenedLast_eq (fun s hs => hgraded s (hperm.mem_iff.1 hs))
        (getLast?_sortedSubmissions hdistinct hmem hlatest), bestScore_perm (hperm.filter _)]
  · rcases max_choice s.score (bestScore (participation.submissions.filter Submission.tokened)) with
      hlast | hbest
    · rw [hlast]
      exact (hgraded s hmem).score_hasDecimals
    · rw [hbest]
      exact bestScore_hasDecimals fun s' hs' => hgraded s' (List.mem_of_mem_filter hs')

end Scored

end Task

end TaskScore
end Grading
end ContestManagement
