import ContestManagement.Ranking.FinalResults
import ContestManagement.Service.ScoreOperations

/-!
# The main site and the ranking agree on scores

The score of the ranking is what the mode gives to the results of all the submissions, as it is
on the main site, except that in the mode that adds up the subtasks the ranking reads the points
back from the details, which have six significant digits.  So the two round to the same score
exactly when the six digits do not take the sum half a unit away.
-/

namespace ContestManagement
namespace Service
namespace ScoreOperations

open Lib
open Decimal (roundTo roundSix)
open Grading (ScoreTypeGroup)
open Grading.TaskScore (Submission Participation Graded bestScore bestPoints bestTotal taskScore)

/-! ## The results in the ranking -/

/-- The submission with all its results, as the ranking has it in the end. -/
def finalResult (username : String) (s : Submission) : Ranking.Scored :=
  ⟨submissionEntity username s, s.score, s.tokened,
    (s.result.map Grading.ScoreResult.rankingDetails).getD []⟩

section Results

variable {compile : String → Except PyError (String → Bool)} {st : ScoreTypeGroup}
  {start r : Ranking.State} {username : String} {task : Grading.TaskScore.Task}
  {submissions : List Submission} {sent : List Message} {s s' : Submission}

theorem Arranged.submission_mem (h : Arranged submissions sent) {m : Message} (hm : m ∈ sent) :
    Message.submission m.about ∈ sent := by
  induction h with
  | nil => cases hm
  | submission _ _ ih =>
      rcases List.mem_append.1 hm with hm | hm
      · exact List.mem_append_left _ (ih hm)
      · rw [List.mem_singleton.1 hm]
        exact List.mem_append_right _ (List.mem_singleton_self _)
  | score _ _ hsent ih =>
      rcases List.mem_append.1 hm with hm | hm
      · exact List.mem_append_left _ (ih hm)
      · rw [List.mem_singleton.1 hm]
        exact List.mem_append_left _ hsent
  | token _ _ hsent _ ih =>
      rcases List.mem_append.1 hm with hm | hm
      · exact List.mem_append_left _ (ih hm)
      · rw [List.mem_singleton.1 hm]
        exact List.mem_append_left _ hsent

/-- The score in the ranking for a task, with what it holds. -/
structure Held (username : String) (submissions : List Submission) (sc : Ranking.Score) : Prop where
  canonical : sc.Canonical
  stored : ∀ key data, (sc.submissions.get? key).map Ranking.Scored.submission = some data ↔
    ∃ s ∈ submissions, key = submissionId s ∧ data = submissionEntity username s
  changes : ∀ key c, (key, c) ∈ sc.changes ↔
    (∃ s ∈ submissions, key = scoreChangeId s ∧ c = scoreChange s) ∨
      ∃ s ∈ submissions, ∃ timestamp, s.token = some timestamp ∧ key = tokenChangeId s timestamp ∧
        c = tokenChange s timestamp

/-- After a complete arrangement the ranking holds all the submissions and their changes. -/
theorem Delivered.held (h : Delivered start username sent r) (hknown : Known start username task)
    (hsubmitted : Submitted compile st task submissions) (hcomplete : Complete submissions sent)
    (hne : submissions ≠ []) :
    ∃ sc, r.scoring.get? (encodeId username, encodeId task.name) = some sc ∧
      sc.scoreMode = task.scoreMode ∧ Held username submissions sc := by
  have hsent : ∀ s, Message.submission s ∈ sent ↔ s ∈ submissions := by
    intro s
    constructor
    · exact fun hs => (hcomplete.arranged.about_mem hs).1
    · exact fun hs => hcomplete.arranged.submission_mem (hcomplete.score s hs)
  have hsubs : ∀ key data, Ranking.subsOf (r.stores .submission).get? (encodeId username)
      (encodeId task.name) key = some data ↔
        ∃ s ∈ submissions, key = submissionId s ∧ data = submissionEntity username s := by
    intro key data
    rw [Ranking.subsOf_eq_some, h.submissions]
    constructor
    · rintro ⟨⟨s, hs, hkey, hdata⟩, -⟩
      exact ⟨s, (hsent s).1 hs, hkey, hdata⟩
    · rintro ⟨s, hs, hkey, rfl⟩
      refine ⟨⟨s, (hsent s).2 hs, hkey, rfl⟩, rfl, ?_⟩
      rw [submissionEntity, (hsubmitted.official s hs).1]
  obtain ⟨s, hs⟩ := List.exists_mem_of_ne_nil _ hne
  have hfirst := (hsubs _ _).2 ⟨s, hs, rfl, rfl⟩
  cases hget : r.scoring.get? (encodeId username, encodeId task.name) with
  | none =>
      rw [h.mirrors.absent _ _ hget] at hfirst
      cases hfirst
  | some sc =>
      obtain ⟨-, mode, hmode, hholds⟩ := h.mirrors.holds _ _ _ hget
      refine ⟨sc, rfl, ?_, hholds.canonical, fun key data => ?_, fun key c => ?_⟩
      · obtain ⟨t, ht, htmode⟩ := hknown.task
        rw [Ranking.modeOf, h.tasks, ht, Option.map_some, Option.some.injEq] at hmode
        rw [hholds.scoreMode, ← hmode, htmode]
      · rw [hholds.submissions, hsubs]
      · rw [hholds.changes, Ranking.chsOf_eq_some, h.subchanges]
        constructor
        · rintro ⟨⟨m, hm, hchange⟩, -⟩
          obtain ⟨habout, htoken⟩ := hcomplete.arranged.about_mem hm
          cases m with
          | submission s => cases hchange
          | score s =>
              cases hchange
              exact Or.inl ⟨s, habout, rfl, rfl⟩
          | token s timestamp =>
              cases hchange
              exact Or.inr ⟨s, habout, timestamp, htoken s timestamp rfl, rfl, rfl⟩
        · rintro (⟨s, hs, rfl, rfl⟩ | ⟨s, hs, timestamp, htoken, rfl, rfl⟩)
          · exact ⟨⟨.score s, hcomplete.score s hs, rfl⟩, _, (hsubs _ _).2 ⟨s, hs, rfl, rfl⟩⟩
          · exact ⟨⟨.token s timestamp, hcomplete.token s hs timestamp htoken, rfl⟩, _,
              (hsubs _ _).2 ⟨s, hs, rfl, rfl⟩⟩

variable {sc : Ranking.Score}

/-- The changes of a submission are those of its score and its token. -/
theorem Held.mem_own (h : Held username submissions sc)
    (hsubmitted : Submitted compile st task submissions) (hs : s ∈ submissions)
    {change : String × Ranking.Subchange} :
    change ∈ sc.changes.filter (fun change => change.2.submission = submissionId s) ↔
      change = (scoreChangeId s, scoreChange s) ∨
        ∃ timestamp, s.token = some timestamp ∧
          change = (tokenChangeId s timestamp, tokenChange s timestamp) := by
  obtain ⟨key, c⟩ := change
  rw [List.mem_filter, h.changes, decide_eq_true_eq]
  constructor
  · rintro ⟨⟨s', hs', rfl, rfl⟩ | ⟨s', hs', timestamp, htoken, rfl, rfl⟩, hid⟩
    · obtain rfl := hsubmitted.eq_of_id hs' hs hid
      exact Or.inl rfl
    · obtain rfl := hsubmitted.eq_of_id hs' hs hid
      exact Or.inr ⟨timestamp, htoken, rfl⟩
  · rintro (heq | ⟨timestamp, htoken, heq⟩)
    · cases heq
      exact ⟨Or.inl ⟨s, hs, rfl, rfl⟩, rfl⟩
    · cases heq
      exact ⟨Or.inr ⟨s, hs, timestamp, htoken, rfl, rfl⟩, rfl⟩

/-- The results of a submission, whatever the order of its score and its token. -/
theorem Held.result (h : Held username submissions sc)
    (hsubmitted : Submitted compile st task submissions) (hs : s ∈ submissions) :
    sc.submissions.get? (submissionId s) = some (finalResult username s) := by
  have hdata := (h.stored _ _).2 ⟨s, hs, rfl, rfl⟩
  obtain ⟨scored, hget, hsubmission⟩ := Option.map_eq_some_iff.1 hdata
  have hresults := h.canonical.results hget
  have hown := fun change => @Held.mem_own _ _ _ _ _ _ _ h hsubmitted hs change
  rw [hget, hresults, Ranking.Scored.applyAll_eq]
  obtain ⟨r, hresult, -, -⟩ := hsubmitted.graded hs
  -- The score and the details come from the one change, the token from the other.
  generalize sc.changes.filter (fun change => change.2.submission = submissionId s) = own at hown ⊢
  have hscoreMem : (scoreChangeId s, scoreChange s) ∈ own := (hown _).2 (Or.inl rfl)
  have hscore : own.foldl (fun q change => change.2.score.getD q) 0 = s.score := by
    refine Ranking.foldl_getD (fun change hchange q hq => ?_) hscoreMem ?_ 0
    · rcases (hown change).1 hchange with rfl | ⟨timestamp, -, rfl⟩
      · simp only [scoreChange, hresult, Option.map_some, Option.some.injEq] at hq
        rw [Submission.score, hresult, ← hq]
      · cases hq
    · simp [scoreChange, Submission.score, hresult]
  have hextra : own.foldl (fun texts change => change.2.extra.getD texts) [] =
      (s.result.map Grading.ScoreResult.rankingDetails).getD [] := by
    refine Ranking.foldl_getD (fun change hchange texts htexts => ?_) hscoreMem ?_ []
    · rcases (hown change).1 hchange with rfl | ⟨timestamp, -, rfl⟩
      · simp only [scoreChange, hresult, Option.map_some, Option.some.injEq] at htexts
        rw [hresult, Option.map_some, Option.getD_some, ← htexts]
      · cases htexts
    · simp [scoreChange, hresult]
  have htoken : own.foldl (fun b change => change.2.token.getD b) false = s.tokened := by
    cases htimestamp : s.token with
    | none =>
        rw [Submission.tokened, htimestamp]
        refine Ranking.foldl_getD_none (fun change hchange => ?_) false
        rcases (hown change).1 hchange with rfl | ⟨timestamp, hsome, -⟩
        · rfl
        · rw [htimestamp] at hsome
          cases hsome
    | some timestamp =>
        rw [Submission.tokened, htimestamp]
        refine Ranking.foldl_getD (fun change hchange b hb => ?_)
          ((hown (tokenChangeId s timestamp, tokenChange s timestamp)).2
            (Or.inr ⟨timestamp, htimestamp, rfl⟩)) ?_ false
        swap
        · rfl
        rcases (hown change).1 hchange with rfl | ⟨timestamp', -, rfl⟩
        · cases hb
        · exact (Option.some.inj hb).symm
  simp only [Ranking.Scored.unscored, hscore, hextra, htoken, hsubmission, finalResult]

/-- The results in the ranking are those of the submissions. -/
theorem Held.scoreds_perm (h : Held username submissions sc)
    (hsubmitted : Submitted compile st task submissions) :
    sc.scoreds.Perm (submissions.map (finalResult username)) := by
  have hkeys : (submissions.map submissionId).Nodup := by
    have hmap : submissions.map submissionId = (submissions.map Submission.id).map Nat.repr := by
      rw [List.map_map]
      rfl
    rw [hmap]
    exact hsubmitted.ids.map repr_injective
  have hitems : sc.submissions.items.Perm
      (submissions.map fun s => (submissionId s, finalResult username s)) := by
    refine (List.perm_ext_iff_of_nodup (List.Nodup.of_map Prod.fst sc.submissions.distinct) ?_).2
      fun item => ?_
    · refine List.Nodup.of_map Prod.fst ?_
      rw [List.map_map]
      exact hkeys
    · obtain ⟨key, scored⟩ := item
      rw [Dict.mem_items_iff, List.mem_map]
      constructor
      · intro hget
        have hdata : (sc.submissions.get? key).map Ranking.Scored.submission =
            some scored.submission := by rw [hget]; rfl
        obtain ⟨s, hs, rfl, -⟩ := (h.stored _ _).1 hdata
        rw [h.result hsubmitted hs, Option.some.injEq] at hget
        exact ⟨s, hs, by rw [hget]⟩
      · rintro ⟨s, hs, heq⟩
        cases heq
        exact h.result hsubmitted hs
  have hmap := hitems.map Prod.snd
  rwa [List.map_map] at hmap

/-- The last submission of the ranking is the latest one. -/
theorem Held.lastSubmission (h : Held username submissions sc)
    (hsubmitted : Submitted compile st task submissions) (hne : submissions ≠ []) :
    ∃ s ∈ submissions, (∀ s' ∈ submissions, s'.timestamp ≤ s.timestamp) ∧
      sc.lastSubmission = some (finalResult username s) := by
  have hlatest := h.canonical.latest
  have hscored : ∀ s ∈ submissions, (scoreChange s).score.isSome = true := by
    intro s hs
    obtain ⟨r, hresult, -, -⟩ := hsubmitted.graded hs
    simp [scoreChange, hresult]
  have hmem : ∀ s ∈ submissions, (scoreChangeId s, scoreChange s) ∈ sc.changes :=
    fun s hs => (h.changes _ _).2 (Or.inl ⟨s, hs, rfl, rfl⟩)
  cases hlast : sc.last with
  | none =>
      obtain ⟨s, hs⟩ := List.exists_mem_of_ne_nil _ hne
      have hunscored := hlatest.unscored hlast _ (hmem s hs)
      have hsome := hscored s hs
      rw [hunscored] at hsome
      cases hsome
  | some key =>
      obtain ⟨⟨change, -, -, -⟩, data, hdata, hlater⟩ := hlatest.scored key hlast
      obtain ⟨s, hs, rfl, rfl⟩ := (h.stored _ _).1 hdata
      refine ⟨s, hs, fun s' hs' => ?_, ?_⟩
      · have htime := hlater _ (hmem s' hs') (hscored s' hs') (submissionEntity username s')
          ((h.stored _ _).2 ⟨s', hs', rfl, rfl⟩)
        obtain ⟨n, hn⟩ := hsubmitted.seconds s hs
        obtain ⟨n', hn'⟩ := hsubmitted.seconds s' hs'
        simp only [submissionEntity, hn, hn', truncate_natCast, Nat.cast_le] at htime
        rw [hn, hn', Nat.cast_le]
        exact htime
      · rw [Ranking.Score.lastSubmission, hlast, Option.bind_some, h.result hsubmitted hs]

/-! ## The points in the ranking -/

/-- A submission has no points in a subtask that its details do not have. -/
theorem points_of_le {r : Grading.ScoreResult} (hresult : s.result = some r) {index : Nat}
    (hindex : r.subtasks.length ≤ index) : s.points index = 0 := by
  simp only [Submission.points, hresult, Grading.TaskScore.pointsAt, List.getD]
  rw [List.getElem?_eq_none (by simpa using hindex)]
  rfl

/-- The column of a submission has its points with six significant digits. -/
theorem column_finalResult {digits : Nat} {subtaskCount : Nat} (username : String)
    (hgraded : Graded subtaskCount digits s) :
    ∃ column, (finalResult username s).column = .ok column ∧ column.length ≤ subtaskCount + 1 ∧
      ∀ row, column.getD row 0 = roundSix (s.points row) := by
  obtain ⟨r, hresult, hr, -⟩ := id hgraded
  have hextra : (finalResult username s).extra = r.rankingDetails := by
    rw [finalResult, hresult, Option.map_some, Option.getD_some]
  have hscore : (finalResult username s).score = s.score := rfl
  have hshown : ∀ index, r.rankingDetails.length ≤ index → roundSix (s.points index) = 0 := by
    intro index hindex
    rw [points_of_le hresult (hr.shown.trans hindex), Decimal.roundSix_zero]
  unfold Ranking.Scored.column
  rw [hextra, hscore]
  by_cases hnil : r.rankingDetails = []
  · -- Without details the score stands for them, and it is zero.
    have hsubtasks : r.subtasks = [] := by
      have hlength := hr.shown
      rw [hnil] at hlength
      exact List.eq_nil_of_length_eq_zero (Nat.le_zero.1 hlength)
    have hzero : s.score = 0 := by
      rw [Submission.score, hresult]
      show r.score = 0
      rw [hr.score, hsubtasks]
      rfl
    refine ⟨[s.score], if_pos hnil, by simp, fun row => ?_⟩
    rw [hshown row (by simp [hnil]), hzero]
    cases row with
    | zero => rfl
    | succ row => rfl
  · rw [if_neg hnil]
    refine exists_mapM_ok_and (fun text htext => ?_) fun column hcolumn => ?_
    · obtain ⟨index, hindex⟩ := List.mem_iff_getElem?.1 htext
      exact ⟨roundSix (s.points index), by rw [read_rankingDetail hgraded hresult hindex]⟩
    have hlength := length_of_mapM_eq_ok hcolumn
    have hcount := hr.count
    refine ⟨by omega, fun row => ?_⟩
    rcases Nat.lt_or_ge row r.rankingDetails.length with hlt | hge
    · have htext := List.getElem?_eq_getElem hlt
      obtain ⟨q, hq, hread⟩ := getElem?_of_mapM_eq_ok hcolumn htext
      rw [read_rankingDetail hgraded hresult htext, Except.ok.injEq] at hread
      rw [List.getD, hq, Option.getD_some, hread]
    · rw [List.getD_eq_default _ _ (hlength ▸ hge), hshown row hge]

/-- The sum of the best points in the subtasks, each with six significant digits. -/
def shownTotal (subtaskCount : Nat) (submissions : List Submission) : ℚ :=
  ((List.range subtaskCount).map fun index => roundSix (bestPoints submissions index)).sum

/-- What the six significant digits of the best points in the subtasks add up to, beyond the
points themselves. -/
def displayError (subtaskCount : Nat) (submissions : List Submission) : ℚ :=
  ((List.range subtaskCount).map fun index =>
    roundSix (bestPoints submissions index) - bestPoints submissions index).sum

theorem displayError_eq (subtaskCount : Nat) (submissions : List Submission) :
    displayError subtaskCount submissions =
      shownTotal subtaskCount submissions - bestTotal subtaskCount submissions := by
  unfold displayError shownTotal bestTotal
  induction subtaskCount with
  | zero => simp
  | succ count ih =>
      simp only [List.range_succ, List.map_append, List.sum_append, List.map_singleton,
        List.sum_singleton, ih]
      ring

/-- The errors of the six digits add up to less than half a unit of the last decimal, or to half a
unit with the last decimal of the sum of the points even. -/
def SmallErrors (subtaskCount digits : Nat) (submissions : List Submission) : Prop :=
  |displayError subtaskCount submissions| * 10 ^ digits < 1 / 2 ∨
    (|displayError subtaskCount submissions| * 10 ^ digits = 1 / 2 ∧
      ⌊bestTotal subtaskCount submissions * 10 ^ digits⌋ % 2 = 0)

instance (subtaskCount digits : Nat) (submissions : List Submission) :
    Decidable (SmallErrors subtaskCount digits submissions) :=
  inferInstanceAs (Decidable (_ ∨ _))

/-! ## The score of the ranking -/

theorem Held.changes_ne_nil (h : Held username submissions sc) (hne : submissions ≠ []) :
    sc.changes ≠ [] := by
  obtain ⟨s, hs⟩ := List.exists_mem_of_ne_nil _ hne
  exact List.ne_nil_of_mem ((h.changes _ _).2 (Or.inl ⟨s, hs, rfl, rfl⟩))

variable (h : Held username submissions sc) (hsubmitted : Submitted compile st task submissions)
  (hne : submissions ≠ [])

include h hsubmitted hne

theorem Held.getScore_max (hmode : sc.scoreMode = "max") : sc.getScore = bestScore submissions := by
  have hscores : ∀ scored ∈ submissions.map (finalResult username), 0 ≤ scored.score := by
    intro scored hscored
    obtain ⟨s, hs, rfl⟩ := List.mem_map.1 hscored
    exact (hsubmitted.graded hs).score_nonneg
  rw [Ranking.Score.getScore_max h.canonical (h.changes_ne_nil hne) (h.scoreds_perm hsubmitted)
    hscores hmode, List.map_map]
  rfl

theorem Held.getScore_maxTokenedLast (hmode : sc.scoreMode = "max_tokened_last") :
    ∃ s ∈ submissions, (∀ s' ∈ submissions, s'.timestamp ≤ s.timestamp) ∧
      sc.getScore = max s.score (bestScore (submissions.filter Submission.tokened)) := by
  obtain ⟨s, hs, hlatest, hlast⟩ := h.lastSubmission hsubmitted hne
  have hscores : ∀ scored ∈ submissions.map (finalResult username), 0 ≤ scored.score := by
    intro scored hscored
    obtain ⟨s, hs, rfl⟩ := List.mem_map.1 hscored
    exact (hsubmitted.graded hs).score_nonneg
  refine ⟨s, hs, hlatest, ?_⟩
  rw [Ranking.Score.getScore_maxTokenedLast h.canonical (h.changes_ne_nil hne)
    (h.scoreds_perm hsubmitted) hscores hmode hlast, List.filter_map, List.map_map]
  rfl

theorem Held.getScore_maxSubtask (hmode : sc.scoreMode = "max_subtask") :
    sc.getScore = shownTotal st.parameters.length submissions := by
  have hcolumn : ∀ s ∈ submissions, ∃ column, (finalResult username s).column = .ok column ∧
      column.length ≤ st.parameters.length + 1 ∧ ∀ row, column.getD row 0 = roundSix (s.points row) :=
    fun s hs => column_finalResult username (hsubmitted.graded hs)
  have hentry : ∀ s ∈ submissions, ∀ row, (finalResult username s).entry row =
      roundSix (s.points row) := by
    intro s hs row
    obtain ⟨column, hread, -, hpoints⟩ := hcolumn s hs
    rw [Ranking.Scored.entry, hread]
    exact hpoints row
  have hbest : ∀ row, ((submissions.map (finalResult username)).map fun scored =>
      scored.entry row).foldl max 0 = roundSix (bestPoints submissions row) := by
    intro row
    have hrow : (submissions.map (finalResult username)).map (fun scored => scored.entry row) =
        (submissions.map fun s => s.points row).map roundSix := by
      rw [List.map_map, List.map_map]
      exact List.map_congr_left fun s hs => hentry s hs row
    rw [hrow]
    exact foldl_max_map Decimal.roundSix_mono _ 0
  -- The row behind the last subtask is there for submissions without details, and has zeros.
  have hlast : roundSix (bestPoints submissions st.parameters.length) = 0 := by
    have hzero : ∀ q ∈ submissions.map (fun s => s.points st.parameters.length), q = 0 := by
      intro q hq
      obtain ⟨s, hs, rfl⟩ := List.mem_map.1 hq
      obtain ⟨r, hresult, hr, -⟩ := id (hsubmitted.graded hs)
      exact points_of_le hresult (hr.shown.trans hr.count)
    obtain ⟨-, -, hstart | hmem⟩ := foldl_max_spec
      (submissions.map fun s => s.points st.parameters.length) 0
    · rw [bestPoints, hstart, Decimal.roundSix_zero]
    · rw [bestPoints, hzero _ hmem, Decimal.roundSix_zero]
  rw [Ranking.Score.getScore_maxSubtask h.canonical (h.changes_ne_nil hne)
    (h.scoreds_perm hsubmitted) hmode (st.parameters.length + 1)]
  · rw [List.map_congr_left fun row _ => hbest row, List.range_succ, List.map_append,
      List.sum_append, List.map_singleton, List.sum_singleton, hlast, add_zero]
    rfl
  · intro scored hscored column hread
    obtain ⟨s, hs, rfl⟩ := List.mem_map.1 hscored
    obtain ⟨column', hread', hlength, -⟩ := hcolumn s hs
    rw [hread] at hread'
    cases hread'
    exact hlength
  · intro scored hscored row
    obtain ⟨s, hs, rfl⟩ := List.mem_map.1 hscored
    rw [hentry s hs row]
    exact Decimal.roundSix_nonneg _

end Results

/-! ## The two scores -/

section Agreement

variable {compile : String → Except PyError (String → Bool)} {st : ScoreTypeGroup}
  {start r : Ranking.State} {task : Grading.TaskScore.Task} {participation : Participation}
  {sent : List Message}

/-- The operations of a complete arrangement are those that are built from the submissions. -/
theorem Complete.mem_operations_iff {submissions : List Submission}
    (h : Complete submissions sent) {brokenContests : Finset Nat} {contest : Nat}
    (hbroken : contest ∉ brokenContests) (group : Namespace) (username : String)
    (op : ProxyOperation PyValue) :
    op ∈ sent.map (Message.operation group username) ↔ ∃ s ∈ submissions,
      op ∈ operationsForScore brokenContests contest group username s ∨
        ∃ timestamp, s.token = some timestamp ∧
          op ∈ operationsForToken brokenContests contest group username s timestamp := by
  simp only [operationsForScore_eq hbroken, operationsForToken_eq hbroken]
  constructor
  · intro hop
    obtain ⟨m, hm, rfl⟩ := List.mem_map.1 hop
    obtain ⟨habout, htoken⟩ := h.arranged.about_mem hm
    refine ⟨m.about, habout, ?_⟩
    cases m with
    | submission s => exact Or.inl (by simp [Message.about])
    | score s => exact Or.inl (by simp [Message.about])
    | token s timestamp =>
        exact Or.inr ⟨timestamp, htoken s timestamp rfl, by simp [Message.about]⟩
  · rintro ⟨s, hs, hop⟩
    have hsubmission := h.arranged.submission_mem (h.score s hs)
    rcases hop with hop | ⟨timestamp, htoken, hop⟩
    · obtain ⟨m, hm, rfl⟩ := List.mem_map.1 hop
      rcases List.mem_pair.1 hm with rfl | rfl
      · exact List.mem_map_of_mem hsubmission
      · exact List.mem_map_of_mem (h.score s hs)
    · obtain ⟨m, hm, rfl⟩ := List.mem_map.1 hop
      rcases List.mem_pair.1 hm with rfl | rfl
      · exact List.mem_map_of_mem hsubmission
      · exact List.mem_map_of_mem (h.token s hs timestamp htoken)

/-- The two scores of a participation with submissions. -/
theorem Delivered.scores_eq (h : Delivered start participation.username sent r)
    (hknown : Known start participation.username task)
    (hsubmitted : Submitted compile st task participation.submissions)
    (hcomplete : Complete participation.submissions sent) (hmode : Ranking.KnownMode task.scoreMode)
    (hne : participation.submissions ≠ []) :
    ∃ score, taskScore participation task false false = .ok (score, false) ∧
      (task.scoreMode ≠ "max_subtask" →
        r.scoring.getScore (encodeId participation.username) (encodeId task.name) = score) ∧
      (task.scoreMode = "max_subtask" →
        r.scoring.getScore (encodeId participation.username) (encodeId task.name) =
            shownTotal st.parameters.length participation.submissions ∧
          score = bestTotal st.parameters.length participation.submissions) := by
  obtain ⟨sc, hget, hscoreMode, hheld⟩ := h.held hknown hsubmitted hcomplete hne
  have hgraded : ∀ s ∈ participation.submissions,
      Graded st.parameters.length task.scorePrecision s := fun s hs => hsubmitted.graded hs
  have hgetScore : r.scoring.getScore (encodeId participation.username) (encodeId task.name) =
      sc.getScore := by
    rw [Ranking.Scoring.getScore, hget]
  rw [hgetScore]
  rcases hmode with hmax | hsubtask | hlast
  · refine ⟨_, Grading.TaskScore.taskScore_max hsubmitted.official hne hgraded hmax, fun _ => ?_,
      fun hsubtask => ?_⟩
    · exact hheld.getScore_max hsubmitted hne (hscoreMode.trans hmax)
    · rw [hmax] at hsubtask
      exact absurd hsubtask (by decide)
  · refine ⟨_, Grading.TaskScore.taskScore_maxSubtask hsubmitted.official hne hgraded hsubtask,
      fun hother => absurd hsubtask hother, fun _ => ⟨?_, rfl⟩⟩
    exact hheld.getScore_maxSubtask hsubmitted hne (hscoreMode.trans hsubtask)
  · obtain ⟨s, hs, hlatest, hscore⟩ :=
      hheld.getScore_maxTokenedLast hsubmitted hne (hscoreMode.trans hlast)
    refine ⟨_, Grading.TaskScore.taskScore_maxTokenedLast hsubmitted.official hne hgraded hlast
      hsubmitted.timestamps hs hlatest, fun _ => hscore, fun hsubtask => ?_⟩
    rw [hlast] at hsubtask
    exact absurd hsubtask (by decide)

/-- A participation without submissions has no score in the ranking. -/
theorem Delivered.getScore_of_nil (h : Delivered start participation.username sent r)
    (hcomplete : Complete participation.submissions sent) (hnil : participation.submissions = [])
    (user task : String) : r.scoring.getScore user task = 0 := by
  rw [Ranking.Scoring.getScore]
  cases hget : r.scoring.get? (user, task) with
  | none => rfl
  | some sc =>
      obtain ⟨⟨key, data, hdata⟩, -⟩ := h.mirrors.holds _ _ _ hget
      obtain ⟨s, hs, -, -⟩ := (h.submissions _ _).1 (Ranking.subsOf_eq_some.1 hdata).1
      have habout := (hcomplete.arranged.about_mem hs).1
      rw [hnil] at habout
      cases habout

/-- The ranking takes all the operations for the submissions of a participation in any order that
sends a submission before its subchanges, and its score rounds to that of the main site, exactly
unless the six digits of the details take the sum of the subtasks too far away. -/
theorem sites_agree_iff (hmode : Ranking.KnownMode task.scoreMode)
    (hknown : Known start participation.username task)
    (hsubmitted : Submitted compile st task participation.submissions)
    (hcomplete : Complete participation.submissions sent) {brokenContests : Finset Nat}
    {contest : Nat} (hbroken : contest ∉ brokenContests) (group : Namespace) :
    (∀ op, op ∈ sent.map (Message.operation group participation.username) ↔
      ∃ s ∈ participation.submissions,
        op ∈ operationsForScore brokenContests contest group participation.username s ∨
          ∃ timestamp, s.token = some timestamp ∧
            op ∈ operationsForToken brokenContests contest group participation.username s
              timestamp) ∧
    ∃ r score, Ranking.rankingMachine.exec start (requests group participation.username sent) =
        some r ∧
      taskScore participation task false false = .ok (score, false) ∧
      (roundTo task.scorePrecision
          (r.scoring.getScore (encodeId participation.username) (encodeId task.name)) =
        roundTo task.scorePrecision score ↔
          (task.scoreMode = "max_subtask" →
            SmallErrors st.parameters.length task.scorePrecision participation.submissions)) := by
  refine ⟨hcomplete.mem_operations_iff hbroken group participation.username, ?_⟩
  obtain ⟨r, hexec, hdelivered⟩ :=
    hcomplete.arranged.delivered hknown hsubmitted hmode group
  by_cases hnil : participation.submissions = []
  · -- Both scores are zero, and so are the errors.
    refine ⟨r, 0, hexec, Grading.TaskScore.taskScore_of_nil hsubmitted.official hnil, ?_⟩
    rw [hdelivered.getScore_of_nil hcomplete hnil]
    refine iff_of_true rfl fun _ => Or.inl ?_
    have hzero : displayError st.parameters.length participation.submissions = 0 := by
      rw [hnil]
      refine List.sum_eq_zero fun q hq => ?_
      obtain ⟨index, -, rfl⟩ := List.mem_map.1 hq
      show roundSix 0 - 0 = 0
      rw [Decimal.roundSix_zero, sub_zero]
    rw [hzero, abs_zero, zero_mul]
    norm_num
  · obtain ⟨score, hscore, hother, hsubtask⟩ :=
      hdelivered.scores_eq hknown hsubmitted hcomplete hmode hnil
    refine ⟨r, score, hexec, hscore, ?_⟩
    by_cases hmax : task.scoreMode = "max_subtask"
    · obtain ⟨hshown, hbest⟩ := hsubtask hmax
      have hdecimals : Decimal.HasDecimals task.scorePrecision score := by
        rw [hbest]
        exact Grading.TaskScore.bestTotal_hasDecimals fun s hs => hsubmitted.graded hs
      have hrounded : roundTo task.scorePrecision score = score :=
        Decimal.roundTo_eq_self_iff.2 hdecimals
      rw [hrounded, Decimal.roundTo_eq_iff hdecimals, hshown, hbest, ← displayError_eq]
      exact ⟨fun hsmall _ => hsmall, fun hsmall => hsmall hmax⟩
    · rw [hother hmax]
      exact iff_of_true rfl fun heq => absurd heq hmax

end Agreement

/-! ## A task with two subtasks -/

/-- A ranking with a user and a task whose mode adds up the subtasks. -/
def subtaskRanking : Ranking.State :=
  (Ranking.rankingMachine.exec Ranking.State.empty
    [.create .contest "contest" Ranking.contestData,
      .create .task "task" (Ranking.taskData "max_subtask"),
      .create .user "user" Ranking.userData]).get (by decide +kernel)

def subtaskTask : Grading.TaskScore.Task := ⟨"task", "max_subtask", 4⟩

theorem known_subtaskRanking : Known subtaskRanking "user" subtaskTask where
  prepared :=
    { integral := Ranking.integral_of_reachable
        (Machine.reachable_of_exec rfl (Option.some_get (by decide +kernel)).symm)
      submissions := by decide +kernel
      subchanges := by decide +kernel
      scoring := by decide +kernel }
  user := by decide +kernel
  task := ⟨((subtaskRanking.stores .task).get? "task").get (by decide +kernel), by decide +kernel,
    by decide +kernel⟩

/-- A testcase for each of the two subtasks. -/
def subtaskScoreType : ScoreTypeGroup :=
  (ScoreTypeGroup.create (fun _ => .error .typeError) .groupMul
    (.list [.list [.int 1000, .list [.str "000"]], .list [.int 100, .list [.str "001"]]])
    [("000", false), ("001", false)] 4).toOption.get (by decide +kernel)

/-- The outcomes of the two testcases, of a submission that did or did not compile. -/
def subtaskOutcomes (compiled : Bool) (first second : ℚ) : Grading.ScoredResult :=
  { Grading.resultWith subtaskScoreType.publicTestcases
      fun codename => if codename = "000" then first else second with
    evaluated := compiled
    scorePrecision := 4 }

def subtaskSubmission (id : Nat) (timestamp : ℚ) (token : Option ℚ) (compiled : Bool)
    (first second : ℚ) : Submission :=
  ⟨id, "task", true, timestamp, token,
    (subtaskScoreType.computeScore (fun _ => .error .typeError)
      (subtaskOutcomes compiled first second)).toOption⟩

/-- The result of a submission is what its score type gives. -/
theorem scored_subtaskSubmission {id : Nat} {timestamp : ℚ} {token : Option ℚ} {compiled : Bool}
    {first second : ℚ}
    (h : (subtaskSubmission id timestamp token compiled first second).result.any (fun r =>
      r.subtasks.all fun subtask => 0 ≤ subtask.points) = true) :
    ∃ result r, result.scorePrecision = 4 ∧
      subtaskScoreType.computeScore (fun _ => .error .typeError) result = .ok r ∧
      (subtaskSubmission id timestamp token compiled first second).result = some r ∧
        ∀ subtask ∈ r.subtasks, 0 ≤ subtask.points := by
  obtain ⟨r, hresult, hall⟩ := (Option.any_eq_true _ _).1 h
  rw [List.all_eq_true] at hall
  refine ⟨subtaskOutcomes compiled first second, r, rfl, eq_ok_of_toOption hresult, hresult, ?_⟩
  exact fun subtask hsubtask => of_decide_eq_true (hall subtask hsubtask)

/-- A full first subtask, a failed compilation with a token, and half of the points. -/
def fullSubmission : Submission := subtaskSubmission 1 1700000000 none true 1 0

def uncompiledSubmission : Submission :=
  subtaskSubmission 2 1700000060 (some 1700000100) false 0 0

def halfSubmission : Submission := subtaskSubmission 3 1700000120 none true (1 / 2) (3 / 4)

def threeSubmissions : List Submission := [fullSubmission, uncompiledSubmission, halfSubmission]

theorem submitted_threeSubmissions :
    Submitted (fun _ => .error .typeError) subtaskScoreType subtaskTask threeSubmissions := by
  have hkeys := @keys_of_tenDigits threeSubmissions (by decide +kernel) (by decide +kernel)
  refine ⟨by decide +kernel, fun s hs => ?_, by decide +kernel, by decide +kernel, fun s hs => ?_,
    by decide +kernel, hkeys.1, hkeys.2⟩
  · rcases List.mem_cons.1 hs with rfl | hs
    · exact scored_subtaskSubmission (by decide +kernel)
    rcases List.mem_pair.1 hs with rfl | rfl
    · exact scored_subtaskSubmission (by decide +kernel)
    · exact scored_subtaskSubmission (by decide +kernel)
  · rcases List.mem_cons.1 hs with rfl | hs
    · exact ⟨1700000000, rfl⟩
    rcases List.mem_pair.1 hs with rfl | rfl
    · exact ⟨1700000060, rfl⟩
    · exact ⟨1700000120, rfl⟩

/-- The token arrives first, and the oldest submission last; one submission arrives twice. -/
def shuffledMessages : List Message :=
  [.submission uncompiledSubmission, .token uncompiledSubmission 1700000100,
    .submission halfSubmission, .score halfSubmission, .submission fullSubmission,
    .submission uncompiledSubmission, .score uncompiledSubmission, .score fullSubmission]

theorem complete_shuffledMessages : Complete threeSubmissions shuffledMessages where
  arranged := by
    have hfull : fullSubmission ∈ threeSubmissions := by simp [threeSubmissions]
    have huncompiled : uncompiledSubmission ∈ threeSubmissions := by simp [threeSubmissions]
    have hhalf : halfSubmission ∈ threeSubmissions := by simp [threeSubmissions]
    have htoken : uncompiledSubmission.token = some 1700000100 := rfl
    have hfirst := (Arranged.nil.submission huncompiled).token huncompiled (by simp) htoken
    have hsecond := (hfirst.submission hhalf).score hhalf (by simp)
    have hthird := (hsecond.submission hfull).submission huncompiled
    exact (hthird.score huncompiled (by simp)).score hfull (by simp)
  score := by decide +kernel
  token := by decide +kernel

/-- The three submissions have the same score on both sides. -/
theorem sites_agree_subtasks :
    ∃ r score, Ranking.rankingMachine.exec subtaskRanking
        (requests none "user" shuffledMessages) = some r ∧
      taskScore ⟨"user", threeSubmissions⟩ subtaskTask false false = .ok (score, false) ∧
      roundTo 4 (r.scoring.getScore "user" "task") = roundTo 4 score := by
  have huser : encodeId "user" = "user" := by decide +kernel
  have htask : encodeId "task" = "task" := by decide +kernel
  have hsmall : SmallErrors subtaskScoreType.parameters.length 4 threeSubmissions := by
    decide +kernel
  have hsites := @sites_agree_iff _ subtaskScoreType subtaskRanking subtaskTask
    ⟨"user", threeSubmissions⟩ shuffledMessages (Or.inr (Or.inl rfl)) known_subtaskRanking
    submitted_threeSubmissions complete_shuffledMessages ∅ 0 (Finset.notMem_empty 0) none
  obtain ⟨-, r, score, hexec, hscore, hagree⟩ := hsites
  refine ⟨r, score, hexec, hscore, ?_⟩
  have hrounded := hagree.2 fun _ => hsmall
  dsimp only [subtaskTask] at hrounded
  rwa [huser, htask] at hrounded

/-- Points with seven digits. -/
def preciseSubmission : Submission :=
  subtaskSubmission 1 1700000000 none true (1234567 / 10000000) 0

/-- The details have six of them, and the ranking adds up the details. -/
theorem seventh_digit_lost :
    Known subtaskRanking "user" subtaskTask ∧
      Submitted (fun _ => .error .typeError) subtaskScoreType subtaskTask [preciseSubmission] ∧
      Complete [preciseSubmission] [.submission preciseSubmission, .score preciseSubmission] ∧
      taskScore ⟨"user", [preciseSubmission]⟩ subtaskTask false false =
        .ok (1234567 / 10000, false) ∧
      ∃ r, Ranking.rankingMachine.exec subtaskRanking (requests none "user"
          [.submission preciseSubmission, .score preciseSubmission]) = some r ∧
        roundTo 4 (r.scoring.getScore "user" "task") = 123457 / 1000 ∧
        roundTo 4 (r.scoring.getScore "user" "task") ≠ roundTo 4 (1234567 / 10000) := by
  have hmem : preciseSubmission ∈ [preciseSubmission] := List.mem_singleton_self _
  have hkeys := @keys_of_tenDigits [preciseSubmission] (by decide +kernel) (by decide +kernel)
  refine ⟨known_subtaskRanking, ?_, ?_, eq_ok_of_toOption (by decide +kernel), ?_⟩
  · refine ⟨by decide +kernel, fun s hs => ?_, by decide +kernel, by decide +kernel, fun s hs => ?_,
      by decide +kernel, hkeys.1, hkeys.2⟩
    · rw [List.mem_singleton.1 hs]
      exact scored_subtaskSubmission (by decide +kernel)
    · rw [List.mem_singleton.1 hs]
      exact ⟨1700000000, rfl⟩
  · exact ⟨(Arranged.nil.submission hmem).score hmem (by simp), by simp, by decide +kernel⟩
  · exact ⟨_, (Option.some_get (by decide +kernel)).symm, by decide +kernel, by decide +kernel⟩

end ScoreOperations
end Service
end ContestManagement
