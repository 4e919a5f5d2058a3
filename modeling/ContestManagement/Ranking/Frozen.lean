import ContestManagement.Lib.TimedMerge
import ContestManagement.Ranking.DeliveryOrder

/-!
# A score at a time

`score_at` and `submissions_at` show a score as it was at a time.  For a canonical score with
its changes in order, the history up to a time is the replay of the changes up to then, and
the submissions made later have no part in it: it is the history of a score that has only the
submissions and changes up to that time.
-/

namespace ContestManagement
namespace Ranking

open Lib

/-- The changes up to a time. -/
def changesUntil (changes : List (String × Subchange)) (t : ℤ) : List (String × Subchange) :=
  changes.takeWhile fun c => c.2.time ≤ t

/-- The history up to a time. -/
def historyUntil (history : List (ℤ × ℚ)) (t : ℤ) : List (ℤ × ℚ) :=
  history.takeWhile fun entry => entry.1 ≤ t

/-- The last score of a history. -/
def lastScore (history : List (ℤ × ℚ)) : ℚ :=
  match history.getLast? with
  | some entry => entry.2
  | none => 0

theorem InOrder.time_le {changes : List (String × Subchange)} (h : InOrder changes) :
    changes.Pairwise fun a b => a.2.time ≤ b.2.time := by
  refine h.imp ?_
  intro a b hab
  unfold changeBefore at hab
  rw [Bool.or_eq_true, Bool.and_eq_true, decide_eq_true_eq, decide_eq_true_eq] at hab
  omega

theorem InOrder.changesUntil_eq {changes : List (String × Subchange)} (h : InOrder changes)
    (t : ℤ) : changesUntil changes t = changes.filter fun c => c.2.time ≤ t := by
  refine takeWhile_eq_filter (h.time_le.imp ?_)
  intro a b hle hb
  rw [decide_eq_true_eq] at hb ⊢
  exact hle.trans hb

/-- The changes up to a time are those whose time is not after it. -/
theorem InOrder.mem_changesUntil {changes : List (String × Subchange)} (h : InOrder changes)
    {t : ℤ} {x : String × Subchange} :
    x ∈ changesUntil changes t ↔ x ∈ changes ∧ x.2.time ≤ t := by
  rw [h.changesUntil_eq, List.mem_filter, decide_eq_true_eq]

theorem InOrder.changesUntil {changes : List (String × Subchange)} (h : InOrder changes) (t : ℤ) :
    InOrder (changesUntil changes t) :=
  List.Pairwise.sublist (List.takeWhile_sublist _) h

namespace Score

variable {sc sc' mid : Score} {changes : List (String × Subchange)} {t : ℤ}

/-! ## The history -/

/-- Changes add entries of their times to the history. -/
theorem appendChanges_history (h : sc.appendChanges changes = .ok sc') :
    ∃ new, sc'.history = sc.history ++ new ∧ ∀ entry ∈ new, ∃ c ∈ changes, c.2.time = entry.1 := by
  refine foldlM_ok_induction (P := fun _ x => ∃ new, x.history = sc.history ++ new ∧
    ∀ entry ∈ new, ∃ c ∈ changes, c.2.time = entry.1) h ⟨[], by simp, by simp⟩ ?_
  rintro done c x x' hinit ⟨new, hnew, htimes⟩ hstep
  obtain ⟨y, v, hy, -, rfl⟩ := appendChange_ok hstep
  obtain ⟨s, released, -, -, rfl⟩ := applyChange_ok hy
  unfold note
  split
  case isTrue =>
    refine ⟨new ++ [(c.2.time, v)], ?_, ?_⟩
    · simp [applied, hnew]
    · intro entry hentry
      rcases List.mem_append.1 hentry with hold | hlast
      · exact htimes entry hold
      · rw [List.mem_singleton.1 hlast]
        exact ⟨c, hinit.subset (by simp), rfl⟩
  case isFalse => exact ⟨new, hnew, htimes⟩

/-- The history up to a time is that of the changes up to then. -/
theorem Canonical.historyUntil (hcanonical : sc.Canonical) (horder : InOrder sc.changes) (t : ℤ) :
    ∃ mid, sc.cleared.appendChanges (changesUntil sc.changes t) = .ok mid ∧
      Ranking.historyUntil sc.history t = mid.history := by
  have hreplay : sc.cleared.appendChanges sc.changes = .ok sc := hcanonical
  set earlier := changesUntil sc.changes t with hearlier
  set later := sc.changes.dropWhile (fun c => decide (c.2.time ≤ t)) with hlater
  have hsplit : sc.changes = earlier ++ later := (List.takeWhile_append_dropWhile).symm
  rw [hsplit, appendChanges_append, bind_eq_ok_iff] at hreplay
  obtain ⟨mid, hmid, hrest⟩ := hreplay
  refine ⟨mid, hmid, ?_⟩
  obtain ⟨new, hnew, hnewTimes⟩ := appendChanges_history hrest
  obtain ⟨old, hold, holdTimes⟩ := appendChanges_history hmid
  have hbefore : ∀ entry ∈ mid.history, entry.1 ≤ t := by
    intro entry hentry
    rw [hold] at hentry
    obtain ⟨c, hc, htime⟩ := holdTimes entry (by simpa [cleared] using hentry)
    have hle := (horder.mem_changesUntil.1 hc).2
    omega
  have hafter : ∀ entry ∈ new, ¬ entry.1 ≤ t := by
    intro entry hentry hle
    obtain ⟨c, hc, htime⟩ := hnewTimes entry hentry
    have hcmem : c ∈ sc.changes := by
      rw [hsplit]
      exact List.mem_append_right _ hc
    have hearly : c ∈ earlier := horder.mem_changesUntil.2 ⟨hcmem, by omega⟩
    have hdisjoint : (earlier ++ later).Nodup := hsplit ▸ horder.nodup
    exact (List.nodup_append.1 hdisjoint).2.2 c hearly c hc rfl
  unfold Ranking.historyUntil
  rw [hnew, List.takeWhile_append_of_pos (by simpa using hbefore)]
  cases hcase : new with
  | nil => simp
  | cons entry rest =>
      have hfirst := hafter entry (by simp [hcase])
      rw [List.takeWhile_cons, if_neg (by simpa using hfirst), List.append_nil]

theorem scoreAt_eq (sc : Score) (t : ℤ) :
    sc.scoreAt t = lastScore (Ranking.historyUntil sc.history t) :=
  rfl

theorem getScore_eq (sc : Score) : sc.getScore = lastScore sc.history :=
  rfl

/-! ## The submissions at a time -/

/-- The submissions made up to a time, without results. -/
def before (sc : Score) (t : ℤ) : Score :=
  { sc.cleared with
    submissions := sc.cleared.submissions.filterValues fun s => s.submission.time ≤ t }

theorem get?_before (sc : Score) (t : ℤ) (key : String) :
    (sc.before t).submissions.get? key =
      (((sc.submissions.get? key).map Scored.submission).filter fun s => s.time ≤ t).map
        Scored.unscored := by
  unfold before cleared
  simp only [Dict.get?_filterValues, Dict.get?_mapValues]
  cases sc.submissions.get? key with
  | none => rfl
  | some s =>
      by_cases htime : s.submission.time ≤ t <;>
        simp [Option.filter, htime, Scored.unscored]

/-- A score that has the submissions of another one, and more that no change has reached. -/
theorem padded_before_cleared (sc : Score) (t : ℤ) : Padded (sc.before t) sc.cleared := by
  refine ⟨fun key s hs => ?_, fun key s hs => ?_, rfl, rfl, rfl, rfl⟩
  · unfold before at hs
    rw [Dict.get?_filterValues, Option.filter_eq_some_iff] at hs
    exact hs.1
  · right
    simp only [cleared, Dict.get?_mapValues, Option.map_eq_some_iff] at hs
    obtain ⟨s', -, rfl⟩ := hs
    rfl

theorem sound_before (sc : Score) (t : ℤ) : (sc.before t).Sound := by
  constructor
  · intro key s hs
    exact (sound_cleared sc).nonNeg key s ((padded_before_cleared sc t).kept key s hs)
  · intro key hkey
    cases hkey

theorem applyIn_congr {d d' : Dict String Scored} (h : ∀ key, d'.get? key = d.get? key)
    (c : Subchange) (key : String) : (applyIn d' c).get? key = (applyIn d c).get? key := by
  unfold applyIn
  rw [h c.submission]
  cases d.get? c.submission with
  | none => exact h key
  | some s => simp only [Dict.get?_set, h]

theorem foldl_applyIn_congr {d d' : Dict String Scored} (h : ∀ key, d'.get? key = d.get? key)
    (changes : List (String × Subchange)) (key : String) :
    (changes.foldl (fun subs c => applyIn subs c.2) d').get? key =
      (changes.foldl (fun subs c => applyIn subs c.2) d).get? key := by
  induction changes generalizing d d' with
  | nil => exact h key
  | cons c rest ih => exact ih (applyIn_congr h c.2)

theorem submissionsAt_eq (sc : Score) (t : ℤ) :
    sc.submissionsAt t = (changesUntil sc.changes t).foldl (fun subs c => applyIn subs c.2)
      (sc.before t).submissions :=
  rfl

/-! ## The results without the history -/

/-- Apply changes, one at a time, without computing a score. -/
def applyChanges (sc : Score) (changes : List (String × Subchange)) : Except PyError Score :=
  changes.foldlM (fun sc change => sc.applyChange change.2) sc

/-- What a change does to the results does not depend on the history. -/
theorem applyChange_withHistory {c : Subchange} (h : sc.appendChange c = .ok sc')
    (history : List (ℤ × ℚ)) :
    ({ sc with history := history } : Score).applyChange c = .ok { sc' with history := history } := by
  obtain ⟨mid, v, hmid, -, rfl⟩ := appendChange_ok h
  obtain ⟨s, released, hget, hreleased, rfl⟩ := applyChange_ok hmid
  have hget' : ({ sc with history := history } : Score).submissions.get? c.submission = some s := hget
  have hreleased' : ({ sc with history := history } : Score).releasedWithout s = .ok released :=
    hreleased
  rw [applyChange_of_get? hget', hreleased', ok_bind]
  unfold note
  split <;> rfl

theorem applyChanges_withHistory (h : sc.appendChanges changes = .ok sc')
    (history : List (ℤ × ℚ)) :
    ({ sc with history := history } : Score).applyChanges changes =
      .ok { sc' with history := history } := by
  induction changes generalizing sc with
  | nil =>
      cases h
      rfl
  | cons c rest ih =>
      unfold appendChanges at h
      rw [List.foldlM_cons, bind_eq_ok_iff] at h
      obtain ⟨next, hnext, hrest⟩ := h
      unfold applyChanges
      rw [List.foldlM_cons, applyChange_withHistory hnext history, ok_bind]
      exact ih hrest

/-- After at least one change the score is the one that the mode gives to the results. -/
theorem appendChanges_value (hne : changes ≠ []) (h : sc.appendChanges changes = .ok sc') :
    sc'.value = .ok sc'.getScore := by
  obtain ⟨before, last, rfl⟩ := (List.eq_nil_or_concat' changes).resolve_left hne
  rw [appendChanges_append, bind_eq_ok_iff] at h
  obtain ⟨mid, -, hlast⟩ := h
  rw [appendChanges_singleton] at hlast
  exact appendChange_value hlast

/-- The mode applied to the results after some changes gives the score of the history. -/
theorem applyChanges_value {start : Score} (hstart : start.history = []) (hne : changes ≠ [])
    (h : start.appendChanges changes = .ok sc') :
    (start.applyChanges changes >>= Score.value) = .ok sc'.getScore := by
  have hresults := applyChanges_withHistory h []
  have hsame : ({ start with history := [] } : Score) = start := by
    rw [← hstart]
  rw [hsame] at hresults
  rw [hresults, ok_bind]
  exact appendChanges_value hne h

end Score

/-! ## What a score holds up to a time -/

namespace Holds

variable {sc sc' : Score} {subs subs' : String → Option Submission}
  {chs chs' : String → Option Subchange} {mode : String} {t : ℤ}

/-- The history up to a time is that of the changes and submissions up to then. -/
theorem replay_before (h : Holds sc subs chs mode)
    (hlate : ∀ key c s, chs key = some c → subs c.submission = some s → s.time ≤ c.time) (t : ℤ) :
    ∃ x, (sc.before t).appendChanges (changesUntil sc.changes t) = .ok x ∧
      x.history = historyUntil sc.history t := by
  obtain ⟨mid, hmid, hhistory⟩ := h.canonical.historyUntil h.inOrder t
  have hmem : ∀ c ∈ changesUntil sc.changes t, c ∈ sc.changes ∧ c.2.time ≤ t :=
    fun c hc => h.inOrder.mem_changesUntil.1 hc
  obtain ⟨x, hx, hpad⟩ := (Score.padded_before_cleared sc t).of_appendChanges
    (Score.sound_before sc t) (fun c hc => h.changes_nonNeg c (hmem c hc).1) (fun c hc => by
      obtain ⟨hchange, htime⟩ := hmem c hc
      have hchs := (h.changes c.1 c.2).1 hchange
      obtain ⟨s, hs⟩ := h.submission_of_change hchs
      have hmade := hlate c.1 c.2 s hchs hs
      refine ⟨Scored.unscored s, ?_⟩
      rw [Score.get?_before, h.submissions, hs]
      have hle : s.time ≤ t := hmade.trans htime
      simp [Option.filter, hle]) hmid
  exact ⟨x, hx, by rw [hhistory, hpad.history]⟩

/-- A score with the submissions up to a time, wherever they come from, goes through the
changes up to then to the same history. -/
theorem replay_start (h : Holds sc subs chs mode)
    (hlate : ∀ key c s, chs key = some c → subs c.submission = some s → s.time ≤ c.time)
    {start : Score} (hstart : start.released = [] ∧ start.last = none ∧ start.history = [] ∧
      start.scoreMode = mode)
    (hsubmissions : ∀ key, start.submissions.get? key =
      ((subs key).filter fun s => s.time ≤ t).map Scored.unscored) :
    ∃ x, start.appendChanges (changesUntil sc.changes t) = .ok x ∧
      x.history = historyUntil sc.history t := by
  obtain ⟨y, hy, hhistory⟩ := h.replay_before hlate t
  have hget : ∀ key, start.submissions.get? key = (sc.before t).submissions.get? key := by
    intro key
    rw [hsubmissions, Score.get?_before, h.submissions]
  obtain ⟨hreleased, hlast, hempty, hmode⟩ := hstart
  have hpad : Score.Padded (sc.before t) start := by
    refine ⟨fun key s hs => ?_, fun key s hs => ?_, hreleased, hlast, hempty, ?_⟩
    · rw [hget, hs]
    · exact Or.inl (by rw [← hget, hs])
    · rw [hmode]
      exact h.scoreMode.symm
  obtain ⟨x, hx, hfinal⟩ := hpad.appendChanges (Score.sound_before sc t)
    (fun c hc => h.changes_nonNeg c (h.inOrder.mem_changesUntil.1 hc).1) hy
  exact ⟨x, hx, hfinal.history.trans hhistory⟩

/-- Two scores that hold the same up to a time show the same at that time. -/
theorem agree_until (h : Holds sc subs chs mode) (h' : Holds sc' subs' chs' mode)
    (hlate : ∀ key c s, chs key = some c → subs c.submission = some s → s.time ≤ c.time)
    (hlate' : ∀ key c s, chs' key = some c → subs' c.submission = some s → s.time ≤ c.time)
    (hsubs : ∀ key s, s.time ≤ t → (subs' key = some s ↔ subs key = some s))
    (hchs : ∀ key c, c.time ≤ t → (chs' key = some c ↔ chs key = some c)) :
    historyUntil sc'.history t = historyUntil sc.history t ∧
      ∀ key, (sc'.submissionsAt t).get? key = (sc.submissionsAt t).get? key := by
  have hchanges : changesUntil sc'.changes t = changesUntil sc.changes t := by
    refine (h'.inOrder.changesUntil t).eq_of_mem_iff (h.inOrder.changesUntil t) fun x => ?_
    rw [h'.inOrder.mem_changesUntil, h.inOrder.mem_changesUntil, h'.changes x.1 x.2,
      h.changes x.1 x.2]
    exact and_congr_left fun htime => hchs x.1 x.2 htime
  have hfilter : ∀ key, (subs' key).filter (fun s => decide (s.time ≤ t)) =
      (subs key).filter fun s => decide (s.time ≤ t) := by
    intro key
    refine Option.ext fun s => ?_
    rw [Option.filter_eq_some_iff, Option.filter_eq_some_iff, decide_eq_true_eq]
    exact and_congr_left fun htime => hsubs key s htime
  constructor
  · obtain ⟨x', hx', hhistory'⟩ := h'.replay_before hlate' t
    obtain ⟨x, hx, hhistory⟩ :
        ∃ x, (sc'.before t).appendChanges (changesUntil sc.changes t) = .ok x ∧
          x.history = historyUntil sc.history t :=
      h.replay_start hlate ⟨rfl, rfl, rfl, h'.scoreMode⟩ fun key => by
        rw [Score.get?_before, h'.submissions, hfilter]
    rw [hchanges, hx] at hx'
    cases hx'
    rw [← hhistory', hhistory]
  · intro key
    rw [Score.submissionsAt_eq, Score.submissionsAt_eq, hchanges]
    refine Score.foldl_applyIn_congr (fun key => ?_) _ key
    rw [Score.get?_before, Score.get?_before, h'.submissions, h.submissions, hfilter]

/-- A score whose submissions all come after a time shows nothing at that time. -/
theorem nothing_until (h : Holds sc subs chs mode)
    (hlate : ∀ key c s, chs key = some c → subs c.submission = some s → s.time ≤ c.time)
    (hafter : ∀ key s, subs key = some s → t < s.time) :
    historyUntil sc.history t = [] ∧ ∀ key, (sc.submissionsAt t).get? key = none := by
  have hchs : ∀ key c, c.time ≤ t → ¬ chs key = some c := by
    intro key c htime hc
    obtain ⟨s, hs⟩ := h.submission_of_change hc
    have hmade := hlate key c s hc hs
    have hlater := hafter c.submission s hs
    omega
  obtain ⟨hhistory, hsubmissions⟩ := (Holds.new mode).agree_until h
    (fun key c s hc => by cases hc) hlate
    (fun key s htime => ⟨fun hs => absurd (hafter key s hs) (not_lt.2 htime), fun hs => by cases hs⟩)
    (fun key c htime => ⟨fun hc => absurd hc (hchs key c htime), fun hc => by cases hc⟩)
  exact ⟨hhistory, fun key => hsubmissions key⟩

end Holds

end Ranking
end ContestManagement
