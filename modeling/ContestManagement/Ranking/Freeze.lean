import ContestManagement.Lib.TimedMerge
import ContestManagement.Ranking.Frozen

/-!
# What a frozen ranking shows

During a freeze the public gets `get_scores_at`, `get_submissions_at` and the global history
until the freeze.  While the scores mirror the stores, these depend only on the submissions
and subchanges up to the freeze: nothing that comes later shows.
-/

namespace ContestManagement
namespace Ranking

open Lib

namespace Scoring

/-- The positive scores of every user and task at a time. -/
def getScoresAt (scoring : Scoring) (t : ℤ) : Dict (String × String) ℚ :=
  (scoring.mapValues fun sc => sc.scoreAt t).filterValues fun score => 0 < score

def getSubmissionsAt (scoring : Scoring) (user task : String) (t : ℤ) : Dict String Scored :=
  match scoring.get? (user, task) with
  | none => Dict.empty
  | some sc => sc.submissionsAt t

/-- The items of the queue are compared by entry, user and task. -/
def historyRank (entry : ℤ × ℚ) (key : String × String) : (ℤ ×ₗ ℚ) ×ₗ (String ×ₗ String) :=
  toLex (toLex entry, toLex key)

/-- The histories of the users and tasks. -/
def histories (scoring : Scoring) : List ((String × String) × List (ℤ × ℚ)) :=
  scoring.items.map fun item => (item.1, item.2.history)

/-- `until is not None and time > until`. -/
def isAfter (bound : Option ℤ) (entry : ℤ × ℚ) : Bool :=
  match bound with
  | none => false
  | some t => entry.1 > t

/-- `get_global_history`: a queue with one entry of each history. -/
def getGlobalHistory (scoring : Scoring) (bound : Option ℤ) :
    List ((String × String) × (ℤ × ℚ)) :=
  let queue := Source.queueOf historyRank scoring.histories
  Source.merge historyRank (isAfter bound) (Source.size queue) queue

end Scoring

/-! ## The score mode and the changes up to a time -/

/-- The submissions of a user for a task up to a time. -/
def submissionsUntil (stores : Stores) (user task : String) (t : ℤ) : List (String × Submission) :=
  (finalSubmissions stores user task).filter fun item => item.2.time ≤ t

/-- The subchanges of a user for a task up to a time, in the order of their time and key. -/
def finalChangesUntil (stores : Stores) (user task : String) (t : ℤ) :
    List (String × Subchange) :=
  (finalChanges stores user task).filter fun item => item.2.time ≤ t

/-- The score mode applied to the results that the changes up to a time give to the
submissions up to then, and zero while there is no change. -/
def modeScoreAt (stores : Stores) (user task : String) (t : ℤ) : Except PyError ℚ :=
  if finalChangesUntil stores user task t = [] then .ok 0
  else do
    let scoreMode ← Scoring.scoreModeOf stores task
    let start := (submissionsUntil stores user task t).foldl
      (fun sc item => sc.createSubmission item.1 item.2) (Score.new scoreMode)
    let results ← start.applyChanges (finalChangesUntil stores user task t)
    results.value

/-! ## The property -/

/-- Every subchange comes at or after its submission. -/
def InTime (stores : Stores) : Prop :=
  ∀ key c s, (stores .subchange).get? key = some c →
    (stores .submission).get? c.submission = some s → s.time ≤ c.time

instance (stores : Stores) : Decidable (InTime stores) :=
  decidable_of_iff (∀ item ∈ (stores .subchange).items,
    ∀ s ∈ (stores .submission).get? item.2.submission, s.time ≤ item.2.time) (by
      constructor
      · intro h key c s hc hs
        exact h (key, c) (Dict.mem_items_iff.2 hc) s hs
      · intro h item hitem s hs
        exact h item.1 item.2 s (Dict.mem_items_iff.1 hitem) hs)

/-- Two rankings have the same score modes, and the same submissions and subchanges up to a
time. -/
structure SameUntil (r r' : State) (t : ℤ) : Prop where
  modes : ∀ task, modeOf r'.stores task = modeOf r.stores task
  submissions : ∀ key s, s.time ≤ t →
    ((r'.stores .submission).get? key = some s ↔ (r.stores .submission).get? key = some s)
  subchanges : ∀ key c, c.time ≤ t →
    ((r'.stores .subchange).get? key = some c ↔ (r.stores .subchange).get? key = some c)
  inTime : InTime r.stores
  inTime' : InTime r'.stores

/-- Two rankings show the same at a time. -/
structure ShowSame (r r' : State) (t : ℤ) : Prop where
  scores : ∀ user task, (r'.scoring.getScoresAt t).get? (user, task) =
    (r.scoring.getScoresAt t).get? (user, task)
  submissions : ∀ user task key, (r'.scoring.getSubmissionsAt user task t).get? key =
    (r.scoring.getSubmissionsAt user task t).get? key
  history : r'.scoring.getGlobalHistory (some t) = r.scoring.getGlobalHistory (some t)

/-- The scores at a time are those of the mode applied to the changes up to then. -/
def ScoresOfMode (r : State) (t : ℤ) : Prop :=
  ∀ user task, ∃ q, modeScoreAt r.stores user task t = .ok q ∧
    (r.scoring.getScoresAt t).get? (user, task) = if 0 < q then some q else none

/-! ## The view of one user and task -/

/-- The history up to a time, empty for a user and a task without a score. -/
def shownHistory (scoring : Scoring) (user task : String) (t : ℤ) : List (ℤ × ℚ) :=
  match scoring.get? (user, task) with
  | none => []
  | some sc => historyUntil sc.history t

theorem get?_getScoresAt (scoring : Scoring) (user task : String) (t : ℤ) :
    (scoring.getScoresAt t).get? (user, task) =
      if 0 < lastScore (shownHistory scoring user task t)
        then some (lastScore (shownHistory scoring user task t)) else none := by
  unfold Scoring.getScoresAt shownHistory
  rw [Dict.get?_filterValues, Dict.get?_mapValues]
  cases scoring.get? (user, task) with
  | none => simp [lastScore]
  | some sc => simp [Option.filter, Score.scoreAt_eq]

section Pair

variable {r r' : State} {t : ℤ} {user task : String}

theorem InTime.subsOf {stores : Stores} (h : InTime stores) (user task : String) :
    ∀ key c s, chsOf (stores .submission).get? (stores .subchange).get? user task key = some c →
      subsOf (stores .submission).get? user task c.submission = some s → s.time ≤ c.time := by
  intro key c s hc hs
  exact h key c s (chsOf_eq_some.1 hc).1 (subsOf_eq_some.1 hs).1

theorem SameUntil.symm (h : SameUntil r r' t) : SameUntil r' r t where
  modes task := (h.modes task).symm
  submissions key s hs := (h.submissions key s hs).symm
  subchanges key c hc := (h.subchanges key c hc).symm
  inTime := h.inTime'
  inTime' := h.inTime

theorem SameUntil.subsOf (h : SameUntil r r' t) (user task key : String) (s : Submission)
    (hs : s.time ≤ t) :
    Ranking.subsOf (r'.stores .submission).get? user task key = some s ↔
      Ranking.subsOf (r.stores .submission).get? user task key = some s := by
  rw [subsOf_eq_some, subsOf_eq_some, h.submissions key s hs]

theorem SameUntil.chsOf_of (h : SameUntil r r' t) {user task key : String} {c : Subchange}
    (hc : c.time ≤ t)
    (hget : chsOf (r.stores .submission).get? (r.stores .subchange).get? user task key = some c) :
    chsOf (r'.stores .submission).get? (r'.stores .subchange).get? user task key = some c := by
  obtain ⟨hstored, s, hsub⟩ := chsOf_eq_some.1 hget
  have hmade := h.inTime.subsOf user task key c s hget hsub
  refine chsOf_eq_some.2 ⟨(h.subchanges key c hc).2 hstored, s, ?_⟩
  exact (h.subsOf user task c.submission s (hmade.trans hc)).2 hsub

/-- Without a score in the second ranking, the first one shows nothing. -/
theorem nothing_of_absent (h : SameUntil r r' t) (hr : Mirrors r (modeOf r.stores))
    (hr' : Mirrors r' (modeOf r'.stores)) {sc : Score}
    (hget : r.scoring.get? (user, task) = some sc) (hnone : r'.scoring.get? (user, task) = none) :
    historyUntil sc.history t = [] ∧ ∀ key, (sc.submissionsAt t).get? key = none := by
  obtain ⟨-, m, -, hholds⟩ := hr.holds user task sc hget
  refine hholds.nothing_until (h.inTime.subsOf user task) fun key s hs => ?_
  by_contra htime
  rw [← h.subsOf user task key s (not_lt.1 htime), hr'.absent user task hnone key] at hs
  cases hs

/-- Both rankings show the same of a user and a task. -/
theorem showSame_pair (h : SameUntil r r' t) (hr : Mirrors r (modeOf r.stores))
    (hr' : Mirrors r' (modeOf r'.stores)) (user task : String) :
    shownHistory r'.scoring user task t = shownHistory r.scoring user task t ∧
      ∀ key, (r'.scoring.getSubmissionsAt user task t).get? key =
        (r.scoring.getSubmissionsAt user task t).get? key := by
  unfold shownHistory Scoring.getSubmissionsAt
  cases hget : r.scoring.get? (user, task) with
  | none =>
      cases hget' : r'.scoring.get? (user, task) with
      | none => exact ⟨rfl, fun key => rfl⟩
      | some sc' =>
          obtain ⟨hhistory, hsubmissions⟩ := nothing_of_absent h.symm hr' hr hget' hget
          exact ⟨hhistory, fun key => hsubmissions key⟩
  | some sc =>
      cases hget' : r'.scoring.get? (user, task) with
      | none =>
          obtain ⟨hhistory, hsubmissions⟩ := nothing_of_absent h hr hr' hget hget'
          exact ⟨hhistory.symm, fun key => (hsubmissions key).symm⟩
      | some sc' =>
          obtain ⟨-, m, hm, hholds⟩ := hr.holds user task sc hget
          obtain ⟨-, m', hm', hholds'⟩ := hr'.holds user task sc' hget'
          rw [h.modes, hm, Option.some.injEq] at hm'
          subst hm'
          exact hholds.agree_until hholds' (h.inTime.subsOf user task)
            (h.inTime'.subsOf user task) (h.subsOf user task)
            fun key c hc => ⟨h.symm.chsOf_of hc, h.chsOf_of hc⟩

/-- The histories cut at a time are the ones shown. -/
theorem mem_histories_cut {scoring : Scoring} {user task : String} {head : ℤ × ℚ}
    {later : List (ℤ × ℚ)} :
    (∃ entries, ((user, task), entries) ∈ scoring.histories ∧
      Source.cut (Scoring.isAfter (some t)) entries = head :: later) ↔
        shownHistory scoring user task t = head :: later := by
  have hcut : ∀ entries, Source.cut (Scoring.isAfter (some t)) entries = historyUntil entries t := by
    intro entries
    unfold Source.cut historyUntil Scoring.isAfter
    congr 1
    funext entry
    have hnot : entry.1 > t ↔ ¬ entry.1 ≤ t := not_le.symm
    simp only [hnot, decide_not, Bool.not_not]
  unfold shownHistory Scoring.histories
  simp only [hcut, List.mem_map]
  constructor
  · rintro ⟨entries, ⟨⟨key, sc⟩, hmem, hpair⟩, hentries⟩
    cases hpair
    rw [Dict.mem_items_iff.1 hmem]
    exact hentries
  · intro hshown
    cases hget : scoring.get? (user, task) with
    | none =>
        rw [hget] at hshown
        cases hshown
    | some sc =>
        rw [hget] at hshown
        exact ⟨sc.history, ⟨((user, task), sc), Dict.mem_items_iff.2 hget, rfl⟩, hshown⟩

theorem Scoring.nodup_histories (scoring : Scoring) :
    (scoring.histories.map Prod.fst).Nodup := by
  unfold Scoring.histories
  rw [List.map_map]
  exact scoring.distinct

theorem historyRank_injective (e : ℤ × ℚ) (k : String × String) (e' : ℤ × ℚ)
    (k' : String × String) (h : Scoring.historyRank e k = Scoring.historyRank e' k') : k = k' := by
  have hpair := toLex.injective h
  exact toLex.injective (Prod.ext_iff.1 hpair).2

/-- The queue gives out its entries in the order of their times. -/
theorem Scoring.time_le_of_historyRank_le (e : ℤ × ℚ) (k : String × String) (e' : ℤ × ℚ)
    (k' : String × String) (h : Scoring.historyRank e k ≤ Scoring.historyRank e' k') :
    e.1 ≤ e'.1 := by
  unfold Scoring.historyRank at h
  rw [Prod.Lex.toLex_le_toLex] at h
  rcases h with hlt | ⟨heq, -⟩
  · rw [Prod.Lex.toLex_lt_toLex] at hlt
    rcases hlt with hlt | ⟨heq, -⟩
    · exact hlt.le
    · exact heq.le
  · rw [toLex.injective heq]

theorem isAfter_of_before (a b : Source (String × String) (ℤ × ℚ))
    (h : Source.Before Scoring.historyRank a b)
    (hstop : Scoring.isAfter (some t) a.head = true) : Scoring.isAfter (some t) b.head = true := by
  have htime := Scoring.time_le_of_historyRank_le a.head a.key b.head b.key h
  unfold Scoring.isAfter at *
  rw [decide_eq_true_eq] at *
  exact lt_of_lt_of_le hstop htime

theorem showSame_of_mirrors (h : SameUntil r r' t) (hr : Mirrors r (modeOf r.stores))
    (hr' : Mirrors r' (modeOf r'.stores)) : ShowSame r r' t where
  scores user task := by
    rw [get?_getScoresAt, get?_getScoresAt, (showSame_pair h hr hr' user task).1]
  submissions user task := (showSame_pair h hr hr' user task).2
  history := by
    have hkeys := Scoring.nodup_histories
    refine Source.merge_congr isAfter_of_before historyRank_injective (hkeys r'.scoring)
      (hkeys r.scoring) fun key head later => ?_
    rw [mem_histories_cut, mem_histories_cut, (showSame_pair h hr hr' key.1 key.2).1]

/-! ## The score mode -/

theorem changesUntil_finalChanges (stores : Stores) (user task : String) (t : ℤ) :
    changesUntil (finalChanges stores user task) t = finalChangesUntil stores user task t := by
  have horder := inOrder_finalChanges stores user task
  refine (horder.changesUntil t).eq_of_mem_iff (List.Pairwise.filter _ horder) fun x => ?_
  unfold finalChangesUntil
  rw [horder.mem_changesUntil, List.mem_filter, decide_eq_true_eq]

theorem nodup_submissionsUntil (stores : Stores) (user task : String) (t : ℤ) :
    ((submissionsUntil stores user task t).map Prod.fst).Nodup :=
  (nodup_finalSubmissions stores user task).sublist (List.filter_sublist.map _)

theorem lookup_submissionsUntil (stores : Stores) (user task : String) (t : ℤ) (key : String) :
    (submissionsUntil stores user task t).lookup key =
      (subsOf (stores .submission).get? user task key).filter fun s => s.time ≤ t := by
  refine Option.ext fun s => ?_
  rw [Dict.lookup_eq_some_iff (nodup_submissionsUntil stores user task t),
    Option.filter_eq_some_iff]
  unfold submissionsUntil
  rw [List.mem_filter, mem_finalSubmissions]

/-- The score shown of a user and a task is the one that the mode gives. -/
theorem modeScoreAt_eq (hr : Mirrors r (modeOf r.stores)) (hlate : InTime r.stores) (t : ℤ)
    (user task : String) :
    modeScoreAt r.stores user task t = .ok (lastScore (shownHistory r.scoring user task t)) := by
  unfold modeScoreAt shownHistory
  cases hget : r.scoring.get? (user, task) with
  | none =>
      have hempty : finalChangesUntil r.stores user task t = [] := by
        unfold finalChangesUntil
        rw [List.filter_eq_nil_iff]
        intro x hx
        obtain ⟨-, s, hs⟩ := chsOf_eq_some.1 (mem_finalChanges.1 hx)
        rw [hr.absent user task hget] at hs
        cases hs
      rw [if_pos hempty]
      rfl
  | some sc =>
      obtain ⟨m, hmode, hholds, hchanges⟩ := hr.final hget
      obtain ⟨hstartMode, hreleased, hlast, hhistory, hstart⟩ :=
        get?_createSubmissions (submissionsUntil r.stores user task t) m
          (nodup_submissionsUntil r.stores user task t)
      obtain ⟨x, hx, hshown⟩ := hholds.replay_start (hlate.subsOf user task)
        ⟨hreleased, hlast, hhistory, hstartMode⟩ fun key => by
          rw [hstart, lookup_submissionsUntil]
      rw [hchanges, changesUntil_finalChanges] at hx
      dsimp only
      rw [← hshown, ← Score.getScore_eq]
      split
      case isTrue hempty =>
        rw [hempty] at hx
        cases hx
        rw [Score.getScore_eq, hhistory]
        rfl
      case isFalse hne =>
        rw [hmode, ok_bind]
        exact Score.applyChanges_value hhistory hne hx

theorem scoresOfMode_of_mirrors (hr : Mirrors r (modeOf r.stores)) (hlate : InTime r.stores)
    (t : ℤ) : ScoresOfMode r t := by
  intro user task
  exact ⟨_, modeScoreAt_eq hr hlate t user task, get?_getScoresAt r.scoring user task t⟩

end Pair

/-- Rankings whose items up to a time are the same. -/
theorem sameUntil_of_items {r r' : State} {t : ℤ}
    (htasks : (r'.stores .task).items.Perm (r.stores .task).items)
    (hsubmissions : ((r.stores .submission).items.filter fun item => decide (item.2.time ≤ t)).Perm
      ((r'.stores .submission).items.filter fun item => decide (item.2.time ≤ t)))
    (hsubchanges : ((r.stores .subchange).items.filter fun item => decide (item.2.time ≤ t)).Perm
      ((r'.stores .subchange).items.filter fun item => decide (item.2.time ≤ t)))
    (hinTime : InTime r.stores) (hinTime' : InTime r'.stores) : SameUntil r r' t where
  modes task := by
    unfold modeOf
    rw [Dict.get?_eq_of_perm htasks]
  submissions key s hs := Dict.get?_iff_of_filter_perm
    (p := fun s : Submission => decide (s.time ≤ t)) hsubmissions key s (by simpa using hs)
  subchanges key c hc := Dict.get?_iff_of_filter_perm
    (p := fun c : Subchange => decide (c.time ≤ t)) hsubchanges key c (by simpa using hc)
  inTime := hinTime
  inTime' := hinTime'

/-- A ranking with one submission before the time 15, and another one after it. -/
def beforeFreeze (later : ℤ) : List Op :=
  [.create .contest "contest" contestData, .create .task "task" (taskData "max_tokened_last"),
    .create .user "user" userData, .create .submission "s1" (submissionData "user" 10),
    .create .subchange "a" (scoreData "s1" 10 40),
    .create .submission "s2" (submissionData "user" later)]

/-- The second submission has a score. -/
def scoredLater : State :=
  (rankingMachine.execVia Careful State.empty
    (beforeFreeze 20 ++ [.create .subchange "b" (scoreData "s2" 20 90)])).get (by decide +kernel)

/-- The second submission is another one, without a score. -/
def unscoredLater : State :=
  (rankingMachine.execVia Careful State.empty (beforeFreeze 30)).get (by decide +kernel)

/-- The stores of `retimedRanking`, filled in the order of the times. -/
def freshRanking : State :=
  (rankingMachine.exec State.empty
    [.create .contest "contest" contestData, .create .task "task" (taskData "max"),
      .create .user "user" userData, .create .submission "s1" (submissionData "user" 10),
      .create .submission "s2" (submissionData "user" 12),
      .create .subchange "b" (scoreData "s2" 20 30),
      .create .subchange "a" (scoreData "s1" 30 40)]).get (by decide +kernel)

end Ranking
end ContestManagement
