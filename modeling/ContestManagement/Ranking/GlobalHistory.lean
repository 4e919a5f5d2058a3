import ContestManagement.Lib.MergeOrder
import ContestManagement.Ranking.Freeze

/-!
# The global history

`get_global_history` merges the histories of all scores.  While the scores mirror the stores the
history of each is in the order of the times, so the merge is too, and the bound cuts off what is
later and nothing else.  What a score was at a time is then the last score in its history up to
then, and the one that the mode gives to the submissions and their results at that time.
-/

namespace ContestManagement
namespace Ranking

open Lib

/-- The entries of a history in the order of their times. -/
def Timed (history : List (ℤ × ℚ)) : Prop :=
  history.Pairwise fun a b => a.1 ≤ b.1

/-- The global history has all entries of the histories, in the order of their times. -/
structure MergesHistories (scoring : Scoring) : Prop where
  complete : (scoring.getGlobalHistory none).Perm (Source.tagged scoring.histories)
  each : ∀ user task sc, scoring.get? (user, task) = some sc →
    Source.under (user, task) (scoring.getGlobalHistory none) =
      sc.history.map fun entry => ((user, task), entry)
  timed : (scoring.getGlobalHistory none).Pairwise fun a b => a.2.1 ≤ b.2.1
  bounded : ∀ t, scoring.getGlobalHistory (some t) =
    (scoring.getGlobalHistory none).filter fun entry => entry.2.1 ≤ t

/-! ## The histories -/

namespace Score

variable {sc sc' : Score} {changes : List (String × Subchange)}

/-- Changes in order add to the history in order. -/
theorem appendChanges_timed (horder : InOrder changes) (hempty : sc.history = [])
    (h : sc.appendChanges changes = .ok sc') : Timed sc'.history := by
  have hboth : Timed sc'.history ∧ ∀ entry ∈ sc'.history, ∃ c ∈ changes, c.2.time = entry.1 := by
    refine foldlM_ok_induction (P := fun done x => Timed x.history ∧
      ∀ entry ∈ x.history, ∃ c ∈ done, c.2.time = entry.1) h ?_ ?_
    · rw [hempty]
      exact ⟨List.Pairwise.nil, by simp⟩
    · rintro done c x x' hinit ⟨htimed, htimes⟩ hstep
      obtain ⟨y, v, hy, -, rfl⟩ := appendChange_ok hstep
      obtain ⟨s, released, -, -, rfl⟩ := applyChange_ok hy
      have hlater : ∀ d ∈ done, d.2.time ≤ c.2.time := by
        have hpairwise := horder.time_le.sublist hinit.sublist
        exact fun d hd => (List.pairwise_append.1 hpairwise).2.2 d hd c List.mem_cons_self
      have hkept : ∀ entry ∈ x.history, ∃ d ∈ done ++ [c], d.2.time = entry.1 := by
        intro entry hentry
        obtain ⟨d, hd, htime⟩ := htimes entry hentry
        exact ⟨d, List.mem_append_left _ hd, htime⟩
      unfold note
      split
      case isTrue =>
        refine ⟨List.pairwise_append.2 ⟨htimed, List.pairwise_singleton _ _, ?_⟩, ?_⟩
        · intro entry hentry last hlast
          obtain ⟨d, hd, htime⟩ := htimes entry hentry
          rw [List.mem_singleton.1 hlast, ← htime]
          exact hlater d hd
        · intro entry hentry
          rcases List.mem_append.1 hentry with hold | hnew
          · exact hkept entry hold
          · rw [List.mem_singleton.1 hnew]
            exact ⟨c, by simp, rfl⟩
      case isFalse => exact ⟨htimed, hkept⟩
  exact hboth.1

theorem Canonical.timed (h : sc.Canonical) (horder : InOrder sc.changes) : Timed sc.history :=
  appendChanges_timed horder rfl h

end Score

theorem Timed.historyUntil_eq {history : List (ℤ × ℚ)} (h : Timed history) (t : ℤ) :
    historyUntil history t = history.filter fun entry => entry.1 ≤ t := by
  refine takeWhile_eq_filter (List.Pairwise.imp ?_ h)
  intro a b hle hb
  rw [decide_eq_true_eq] at hb ⊢
  exact hle.trans hb

/-! ## The merge -/

namespace Scoring

variable {scoring : Scoring}

theorem getGlobalHistory_none (scoring : Scoring) :
    scoring.getGlobalHistory none =
      Source.mergeAll historyRank (Source.queueOf historyRank scoring.histories) := rfl

theorem mergesHistories (h : ∀ user task sc, scoring.get? (user, task) = some sc →
    Timed sc.history) : MergesHistories scoring := by
  have htimed : (scoring.getGlobalHistory none).Pairwise fun a b => a.2.1 ≤ b.2.1 := by
    rw [getGlobalHistory_none]
    refine Source.mergeAll_queueOf_sorted
      (fun entry : (String × String) × (ℤ × ℚ) => entry.2.1) time_le_of_historyRank_le ?_
    intro item hitem
    obtain ⟨⟨key, sc⟩, hmem, rfl⟩ := List.mem_map.1 hitem
    exact List.pairwise_map.2 (h key.1 key.2 sc (Dict.mem_items_iff.1 hmem))
  constructor
  case complete =>
    rw [getGlobalHistory_none]
    exact (Source.mergeAll_perm _).trans (Source.allEntries_queueOf_perm _)
  case each =>
    intro user task sc hsc
    rw [getGlobalHistory_none, Source.under_mergeAll_queueOf scoring.nodup_histories]
    exact Source.under_tagged scoring.nodup_histories
      (List.mem_map.2 ⟨((user, task), sc), Dict.mem_items_iff.2 hsc, rfl⟩)
  case timed => exact htimed
  case bounded =>
    intro t
    have hcut : scoring.getGlobalHistory (some t) =
        (scoring.getGlobalHistory none).takeWhile fun entry => !isAfter (some t) entry.2 :=
      Source.merge_eq_takeWhile _ _ _
    have htest : (fun entry : (String × String) × (ℤ × ℚ) => !isAfter (some t) entry.2) =
        fun entry => decide (entry.2.1 ≤ t) := by
      funext entry
      unfold isAfter
      rw [← decide_not]
      exact decide_eq_decide.2 not_lt
    rw [hcut, htest]
    refine takeWhile_eq_filter (htimed.imp ?_)
    intro a b hle hb
    rw [decide_eq_true_eq] at hb ⊢
    exact hle.trans hb

end Scoring

/-! ## The mode and the submissions at a time -/

/-- When the submission of a key was made. -/
def madeAt (submissions : Dict String Scored) (key : String) : Option ℤ :=
  (submissions.get? key).map fun s => s.submission.time

/-- The last submission after one more change: as in `append_change`, that of a change with a
score, if it was made later than the last one so far. -/
def laterScored (made : String → Option ℤ) (last : Option String) (c : Subchange) :
    Option String :=
  if c.score.isSome ∧ ∃ time ∈ made c.submission, ∀ other ∈ last.bind made, other < time
    then some c.submission else last

/-- The last one of some submissions that the changes gave a score. -/
def lastScored (submissions : Dict String Scored) (changes : List (String × Subchange)) :
    Option String :=
  changes.foldl (fun last c => laterScored (madeAt submissions) last c.2) none

/-- The score that a mode gives to some submissions with their results, and the last of them. -/
def modeOn (scoreMode : String) (submissions : Dict String Scored) (last : Option String) :
    Except PyError ℚ :=
  let results : Score := ⟨submissions, [], [], last, [], scoreMode⟩
  ({ results with released := results.tokened } : Score).value

theorem maxDefault_perm {values others : List ℚ} (h : values.Perm others) :
    maxDefault values = maxDefault others := by
  by_cases hempty : values = []
  · rw [hempty] at h ⊢
    rw [h.nil_eq]
  · have hempty' : others ≠ [] := fun hnil => hempty (hnil ▸ h).eq_nil
    refine le_antisymm ?_ ?_
    · exact le_maxDefault (h.mem_iff.1 (maxDefault_mem hempty))
    · exact le_maxDefault (h.mem_iff.2 (maxDefault_mem hempty'))

namespace Score

variable {sc sc' : Score} {changes : List (String × Subchange)}

theorem modeOn_eq (hgood : sc.Good) :
    modeOn sc.scoreMode sc.submissions sc.last = sc.value := by
  have hreleased : maxDefault (sc.tokened ++ [0]) = maxDefault (sc.released ++ [0]) :=
    maxDefault_perm (hgood.released.symm.append_right [0])
  unfold value
  rw [← hreleased]
  rfl

theorem unscored_of_before {t : ℤ} {key : String} {s : Scored}
    (h : (sc.before t).submissions.get? key = some s) : s = Scored.unscored s.submission := by
  rw [get?_before, Option.map_eq_some_iff] at h
  obtain ⟨submission, -, rfl⟩ := h
  rfl

/-- A mode gives nothing to submissions that no change has reached. -/
theorem value_before (sc : Score) (t : ℤ) (hmode : KnownMode sc.scoreMode) :
    (sc.before t).value = .ok 0 := by
  have hpad : Padded (Score.new sc.scoreMode) (sc.before t) := by
    refine ⟨fun key s hs => (by cases hs), fun key s hs => .inr (unscored_of_before hs), rfl, rfl,
      rfl, rfl⟩
  have hsound : (Score.new sc.scoreMode).Sound :=
    ⟨fun key s hs => (by cases hs), fun key hkey => (by cases hkey)⟩
  rw [hpad.value_iff hsound]
  unfold value
  show (if sc.scoreMode = "max" then _ else if sc.scoreMode = "max_subtask" then _
    else if sc.scoreMode = "max_tokened_last" then _ else _) = _
  rcases hmode with hmode | hmode | hmode
  · rw [if_pos hmode]
    rfl
  · rw [if_neg (by rw [hmode]; decide), if_pos hmode]
    rfl
  · rw [if_neg (by rw [hmode]; decide), if_neg (by rw [hmode]; decide), if_pos hmode]
    rfl

theorem good_before (sc : Score) (t : ℤ) : (sc.before t).Good := by
  have hscored : ∀ s ∈ (sc.before t).scoreds, s = Scored.unscored s.submission := by
    intro s hs
    obtain ⟨key, hkey⟩ := mem_scoreds_iff.1 hs
    exact unscored_of_before hkey
  constructor
  · have hnone : (sc.before t).scoreds.filter Scored.token = [] := by
      rw [List.filter_eq_nil_iff]
      intro s hs
      rw [hscored s hs]
      exact Bool.false_ne_true
    rw [tokened, hnone]
    exact List.Perm.refl _
  · intro _ s hs
    rw [hscored s hs]
    intro text htext
    cases htext

/-- Changes leave the results in the submissions. -/
theorem appendChanges_submissions (h : sc.appendChanges changes = .ok sc') :
    sc'.submissions = changes.foldl (fun subs c => applyIn subs c.2) sc.submissions := by
  refine foldlM_ok_induction (P := fun done x =>
    x.submissions = done.foldl (fun subs c => applyIn subs c.2) sc.submissions) h rfl ?_
  rintro done c x x' - hx hstep
  obtain ⟨y, v, hy, -, rfl⟩ := appendChange_ok hstep
  obtain ⟨s, released, hget, -, rfl⟩ := applyChange_ok hy
  rw [List.foldl_append, ← hx, note_submissions]
  show x.submissions.set c.2.submission (s.apply c.2) = applyIn x.submissions c.2
  unfold applyIn
  rw [hget]

/-- The test of `append_change` reads only the times. -/
theorem becomesLast_iff {c : Subchange} {s : Scored}
    (hget : sc.submissions.get? c.submission = some s) :
    sc.becomesLast (s.apply c) c = true ↔ c.score.isSome ∧ ∃ time ∈ madeAt sc.submissions c.submission,
      ∀ other ∈ sc.last.bind (madeAt sc.submissions), other < time := by
  have hmade : madeAt sc.submissions c.submission = some s.submission.time := by
    rw [madeAt, hget, Option.map_some]
  have hlast : sc.last.bind (madeAt sc.submissions) =
      sc.lastSubmission.map fun last => last.submission.time := by
    unfold lastSubmission madeAt
    cases sc.last <;> rfl
  unfold becomesLast
  rw [hmade, hlast]
  cases sc.lastSubmission with
  | none => simp
  | some last =>
      simp only [Option.map_some, Option.mem_some_iff, forall_eq', exists_eq_left', Bool.and_eq_true]
      exact and_congr_right fun _ => decide_eq_true_iff

theorem appendChanges_last (hlast : sc.last = none) (h : sc.appendChanges changes = .ok sc') :
    sc'.last = lastScored sc'.submissions changes := by
  have hcleared := appendChanges_cleared h
  have hmade : ∀ {x : Score}, x.cleared = sc.cleared →
      madeAt x.submissions = madeAt sc'.submissions := by
    intro x hx
    funext key
    have hget := get?_of_cleared (hx.trans hcleared.symm) key
    have htimes := congrArg (Option.map Submission.time) hget
    simpa only [madeAt, Option.map_map, Function.comp_def] using htimes
  have hboth : sc'.cleared = sc.cleared ∧ sc'.last = lastScored sc'.submissions changes := by
    refine foldlM_ok_induction (P := fun done x => x.cleared = sc.cleared ∧
      x.last = lastScored sc'.submissions done) h ⟨rfl, hlast⟩ ?_
    rintro done c x x' - ⟨hx, hxlast⟩ hstep
    refine ⟨(appendChange_cleared hstep).trans hx, ?_⟩
    obtain ⟨y, v, hy, -, rfl⟩ := appendChange_ok hstep
    obtain ⟨s, released, hget, -, rfl⟩ := applyChange_ok hy
    have hstepLast : lastScored sc'.submissions (done ++ [c]) =
        laterScored (madeAt sc'.submissions) (lastScored sc'.submissions done) c.2 :=
      List.foldl_append
    rw [hstepLast, ← hxlast, ← hmade hx, note_last]
    exact if_congr (becomesLast_iff hget) rfl rfl
  exact hboth.2

end Score

/-- A score at a time is what the mode gives to the submissions at that time. -/
theorem Holds.modeOn_eq {sc : Score} {subs : String → Option Submission}
    {chs : String → Option Subchange} {mode : String} (h : Holds sc subs chs mode)
    (hlate : ∀ key c s, chs key = some c → subs c.submission = some s → s.time ≤ c.time)
    (hmode : KnownMode sc.scoreMode) (t : ℤ) :
    modeOn sc.scoreMode (sc.submissionsAt t)
      (lastScored (sc.submissionsAt t) (changesUntil sc.changes t)) = .ok (sc.scoreAt t) := by
  obtain ⟨x, hx, hhistory⟩ := h.replay_before hlate t
  have hsubmissions : x.submissions = sc.submissionsAt t := by
    rw [Score.appendChanges_submissions hx, Score.submissionsAt_eq]
  have hcleared := Score.appendChanges_cleared hx
  have hscoreMode : x.scoreMode = sc.scoreMode :=
    (Score.scoreMode_of_cleared hcleared).trans rfl
  have hscore : x.getScore = sc.scoreAt t := by
    rw [Score.getScore_eq, Score.scoreAt_eq, hhistory]
  rw [← hsubmissions, ← Score.appendChanges_last rfl hx, ← hscoreMode,
    Score.modeOn_eq ((sc.good_before t).of_appendChanges hx), ← hscore]
  by_cases hempty : changesUntil sc.changes t = []
  · rw [hempty] at hx
    rw [← Except.ok.inj hx]
    exact sc.value_before t hmode
  · exact Score.appendChanges_value hempty hx

/-! ## The property -/

/-- What is shown of a time: the last score in the history up to it, and the score that the mode
gives to the submissions at it. -/
structure ShownAt (r : State) (sc : Score) (t : ℤ) : Prop where
  history : sc.scoreAt t = lastScore (sc.history.filter fun entry => entry.1 ≤ t)
  mode : InTime r.stores → KnownMode sc.scoreMode →
    modeOn sc.scoreMode (sc.submissionsAt t)
      (lastScored (sc.submissionsAt t) (changesUntil sc.changes t)) = .ok (sc.scoreAt t)

/-- The change of the first submission moves behind a better one of the other. -/
def retimedBehindBetter : State :=
  (rankingMachine.exec State.empty
    [.create .contest "contest" contestData, .create .task "task" (taskData "max"),
      .create .user "user" userData, .create .submission "s1" (submissionData "user" 10),
      .create .submission "s2" (submissionData "user" 12),
      .create .subchange "a" (scoreData "s1" 10 40), .create .subchange "b" (scoreData "s2" 20 50),
      .update .subchange "a" (scoreData "s1" 30 40)]).get (by decide +kernel)

end Ranking
end ContestManagement
