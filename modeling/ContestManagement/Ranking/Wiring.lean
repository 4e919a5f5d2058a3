import ContestManagement.Ranking.Integrity
import ContestManagement.Ranking.Mirror
import ContestManagement.Ranking.Tidy

/-!
# Scores wired to the submissions

`Wired scoring subs` says that every submission has a score, that each score has exactly the
submissions of its user and task, and that all scores are tidy.  Unlike `Mirror` it says nothing of
the subchanges that are stored: a submission that moves leaves its subchanges behind.  It is what the
callbacks need not to raise.
-/

namespace ContestManagement
namespace Ranking

open Lib

structure Wired (scoring : Scoring) (subs : String → Option Submission) : Prop where
  found : ∀ key s, subs key = some s → ∃ sc, scoring.get? (s.user, s.task) = some sc
  owned : ∀ user task sc, scoring.get? (user, task) = some sc →
    sc.submissionAt = subsOf subs user task
  tidy : ∀ p sc, scoring.get? p = some sc → sc.Tidy

/-- The changes of each score were there before. -/
def FewerChanges (scoring scoring' : Scoring) : Prop :=
  ∀ p sc', scoring'.get? p = some sc' → ∀ change ∈ sc'.changes,
    ∃ sc, scoring.get? p = some sc ∧ change ∈ sc.changes

/-- The scores are those that were there, with their modes, and no changes are new but those of a
key. -/
def SameScores (key : String) (scoring scoring' : Scoring) : Prop :=
  ∀ p sc', scoring'.get? p = some sc' → ∃ sc, scoring.get? p = some sc ∧
    sc'.scoreMode = sc.scoreMode ∧ ∀ change ∈ sc'.changes, change ∈ sc.changes ∨ change.1 = key

theorem FewerChanges.trans {first second third : Scoring} (h : FewerChanges first second)
    (h' : FewerChanges second third) : FewerChanges first third := by
  intro p sc hsc change hchange
  obtain ⟨mid, hmid, hold⟩ := h' p sc hsc change hchange
  exact h p mid hmid change hold

theorem SameScores.trans {key : String} {first second third : Scoring}
    (h : SameScores key first second) (h' : SameScores key second third) :
    SameScores key first third := by
  intro p sc hsc
  obtain ⟨mid, hmid, hmode, hchanges⟩ := h' p sc hsc
  obtain ⟨start, hstart, hmode', hchanges'⟩ := h p mid hmid
  refine ⟨start, hstart, hmode.trans hmode', fun change hchange => ?_⟩
  rcases hchanges change hchange with hold | hkey
  · exact hchanges' change hold
  · exact .inr hkey

namespace Wired

variable {stores : Stores} {scoring : Scoring} {subs : String → Option Submission} {key : String}

/-- Setting one score, when the submissions of every other user and task stay as they are. -/
theorem set {subs' : String → Option Submission} {user task : String} {sc : Score}
    (h : Wired scoring subs)
    (hsubs : ∀ u t, (u, t) ≠ (user, task) → subsOf subs' u t = subsOf subs u t)
    (howned : sc.submissionAt = subsOf subs' user task) (htidy : sc.Tidy) :
    Wired (scoring.set (user, task) sc) subs' := by
  refine ⟨fun key s hs => ?_, fun u t sc' hget => ?_, fun p sc' hget => ?_⟩
  · rw [Dict.get?_set]
    split
    case isTrue => exact ⟨sc, rfl⟩
    case isFalse hne =>
      have hself := subsOf_self hs
      rw [hsubs _ _ hne] at hself
      exact h.found key s (subsOf_eq_some.1 hself).1
  · rw [Dict.get?_set] at hget
    split at hget
    case isTrue heq =>
      rw [Prod.mk.injEq] at heq
      obtain ⟨rfl, rfl⟩ := heq
      cases hget
      exact howned
    case isFalse hne =>
      rw [hsubs u t hne]
      exact h.owned u t sc' hget
  · rw [Dict.get?_set] at hget
    split at hget
    case isTrue =>
      cases hget
      exact htidy
    case isFalse => exact h.tidy p sc' hget

/-- Taking a score away that has no submissions left. -/
theorem erase {subs' : String → Option Submission} {user task : String} (h : Wired scoring subs)
    (hsubs : ∀ u t, (u, t) ≠ (user, task) → subsOf subs' u t = subsOf subs u t)
    (hnone : ∀ key, subsOf subs' user task key = none) :
    Wired (scoring.erase (user, task)) subs' := by
  have hkept : ∀ p sc, (scoring.erase (user, task)).get? p = some sc →
      p ≠ (user, task) ∧ scoring.get? p = some sc := by
    intro p sc hget
    rw [Dict.get?_erase] at hget
    split at hget
    case isTrue => cases hget
    case isFalse hne => exact ⟨hne, hget⟩
  refine ⟨fun key s hs => ?_, fun u t sc hget => ?_, fun p sc hget => ?_⟩
  · have hself := subsOf_self hs
    have hne : (s.user, s.task) ≠ (user, task) := by
      intro heq
      rw [Prod.mk.injEq] at heq
      rw [heq.1, heq.2, hnone] at hself
      cases hself
    rw [hsubs _ _ hne] at hself
    rw [Dict.get?_erase, if_neg hne]
    exact h.found key s (subsOf_eq_some.1 hself).1
  · obtain ⟨hne, hold⟩ := hkept _ sc hget
    rw [hsubs u t hne]
    exact h.owned u t sc hold
  · exact h.tidy p sc (hkept p sc hget).2

/-- The score of a submission, which has it. -/
theorem find (h : Wired scoring subs) {s : Submission} (hs : subs key = some s) :
    ∃ sc, scoring.get? (s.user, s.task) = some sc ∧ scoring.find s.user s.task = .ok sc ∧
      sc.Tidy ∧ ∃ scored, sc.submissions.get? key = some scored := by
  obtain ⟨sc, hsc⟩ := h.found key s hs
  have hat := congrFun (h.owned _ _ sc hsc) key
  rw [subsOf_self hs] at hat
  obtain ⟨scored, hscored, -⟩ := Option.map_eq_some_iff.1 hat
  refine ⟨sc, hsc, ?_, h.tidy _ sc hsc, scored, hscored⟩
  unfold Scoring.find
  rw [hsc]

theorem fewerChanges_set {user task : String} (sc : Score) {sc' : Score}
    (hsc : ∀ change ∈ sc'.changes, scoring.get? (user, task) = some sc ∧ change ∈ sc.changes) :
    FewerChanges scoring (scoring.set (user, task) sc') := by
  intro p sc'' hget change hchange
  rw [Dict.get?_set] at hget
  split at hget
  case isTrue heq =>
    cases hget
    rw [heq]
    exact ⟨sc, hsc change hchange⟩
  case isFalse => exact ⟨sc'', hget, hchange⟩

/-! ## The callbacks of the submissions -/

theorem createSubmission (h : Wired scoring subs) (hfresh : subs key = none) {s : Submission}
    (htask : stores.has .task s.task = true) :
    ∃ scoring', scoring.createSubmission stores key s = .ok scoring' ∧
      Wired scoring' (Function.update subs key (some s)) ∧ FewerChanges scoring scoring' := by
  have hsubs : ∀ u t, (u, t) ≠ (s.user, s.task) →
      subsOf (Function.update subs key (some s)) u t = subsOf subs u t := by
    intro u t hne
    refine subsOf_update_other (fun s' hs' => ?_) fun s' hs' => ?_
    · rw [hfresh] at hs'
      cases hs'
    · cases hs'
      exact hne
  -- The score that is there, or a new one, has the submissions of the user for the task.
  obtain ⟨sc, hfind, htidy, howned, hchanges⟩ : ∃ sc,
      scoring.findOrNew stores s.user s.task = .ok sc ∧ sc.Tidy ∧
        sc.submissionAt = subsOf subs s.user s.task ∧
          ∀ change ∈ sc.changes, scoring.get? (s.user, s.task) = some sc ∧ change ∈ sc.changes := by
    unfold Scoring.findOrNew
    cases hget : scoring.get? (s.user, s.task) with
    | some sc => exact ⟨sc, rfl, h.tidy _ sc hget, h.owned _ _ sc hget, fun _ hc => ⟨rfl, hc⟩⟩
    | none =>
        obtain ⟨task, htask⟩ := Stores.has_iff.1 htask
        refine ⟨Score.new task.scoreMode, ?_, Score.tidy_new _, ?_, fun _ hc => by cases hc⟩
        · unfold Scoring.scoreModeOf
          rw [htask]
          rfl
        · funext key'
          show none = subsOf subs s.user s.task key'
          cases hkey : subsOf subs s.user s.task key' with
          | none => rfl
          | some s' =>
              obtain ⟨hstored, huser, htask'⟩ := subsOf_eq_some.1 hkey
              obtain ⟨sc, hsc⟩ := h.found key' s' hstored
              rw [huser, htask', hget] at hsc
              cases hsc
  refine ⟨scoring.set (s.user, s.task) (sc.createSubmission key s), ?_, ?_, ?_⟩
  · unfold Scoring.createSubmission
    rw [hfind]
    rfl
  · refine h.set hsubs ?_ (htidy.createSubmission s ?_)
    · rw [Score.submissionAt_createSubmission, howned, subsOf_update_self]
    · rw [howned, subsOf, hfresh]
      rfl
  · exact fewerChanges_set sc hchanges

theorem deleteSubmission (h : Wired scoring subs) {s : Submission} (hs : subs key = some s) :
    ∃ scoring', scoring.deleteSubmission key s = .ok scoring' ∧
      Wired scoring' (Function.update subs key none) ∧ FewerChanges scoring scoring' := by
  have hsubs : ∀ u t, (u, t) ≠ (s.user, s.task) →
      subsOf (Function.update subs key none) u t = subsOf subs u t := by
    intro u t hne
    refine subsOf_update_other (fun s' hs' => ?_) fun s' hs' => by cases hs'
    rw [hs, Option.some.injEq] at hs'
    exact hs' ▸ hne
  obtain ⟨sc, hsc, hfind, htidy, -⟩ := h.find hs
  obtain ⟨sc', hdelete, htidy', hchanges, howned⟩ := htidy.deleteSubmission key
  rw [h.owned _ _ sc hsc, ← subsOf_erase] at howned
  have hresult : scoring.deleteSubmission key s =
      .ok (if sc'.submissions.items = [] then scoring.erase (s.user, s.task)
        else scoring.set (s.user, s.task) sc') := by
    unfold Scoring.deleteSubmission
    rw [hfind, ok_bind, hdelete]
    rfl
  refine ⟨_, hresult, ?_, ?_⟩
  · split
    case isTrue hempty =>
      refine h.erase hsubs fun key' => ?_
      rw [← howned]
      show (sc'.submissions.items.lookup key').map Scored.submission = none
      rw [hempty]
      rfl
    case isFalse => exact h.set hsubs howned htidy'
  · split
    case isTrue =>
      intro p sc'' hget change hchange
      rw [Dict.get?_erase] at hget
      split at hget
      case isTrue => cases hget
      case isFalse => exact ⟨sc'', hget, hchange⟩
    case isFalse => exact fewerChanges_set sc fun change hchange => ⟨hsc, hchanges change hchange⟩

/-- An update that stays with its user and task sets the score mode of the task. -/
theorem updateSubmission (h : Wired scoring subs) {old s : Submission} (hold : subs key = some old)
    (htask : stores.has .task s.task = true)
    (hreadable : old.user = s.user → old.task = s.task → ∀ sc task,
      scoring.get? (s.user, s.task) = some sc → (stores .task).get? s.task = some task →
        ∀ change ∈ sc.changes, Readable task.scoreMode change.2) :
    ∃ scoring', scoring.updateSubmission stores key old s = .ok scoring' ∧
      Wired scoring' (Function.update subs key (some s)) ∧ FewerChanges scoring scoring' := by
  unfold Scoring.updateSubmission
  split
  case isTrue =>
    obtain ⟨mid, hdelete, hmid, hfewer⟩ := h.deleteSubmission hold
    obtain ⟨scoring', hcreate, hwired, hfewer'⟩ :=
      hmid.createSubmission (Function.update_self key none subs) htask
    rw [Function.update_idem] at hwired
    exact ⟨scoring', by rw [hdelete, ok_bind, hcreate], hwired, hfewer.trans hfewer'⟩
  case isFalse hstay =>
    rw [not_or, not_not, not_not] at hstay
    obtain ⟨huser, htask'⟩ := hstay
    obtain ⟨task, hstored⟩ := Stores.has_iff.1 htask
    obtain ⟨sc, hsc, hfind, htidy, -⟩ := h.find hold
    rw [huser, htask'] at hsc hfind
    obtain ⟨sc', hupdate, htidy', hchanges, howned⟩ := htidy.updateSubmission key s
    rw [h.owned _ _ sc hsc, ← subsOf_update_self] at howned
    have hmode : Scoring.scoreModeOf stores s.task = .ok task.scoreMode := by
      unfold Scoring.scoreModeOf
      rw [hstored]
    have hsubs : ∀ u t, (u, t) ≠ (s.user, s.task) →
        subsOf (Function.update subs key (some s)) u t = subsOf subs u t := by
      intro u t hne
      refine subsOf_update_other (fun s' hs' => ?_) fun s' hs' => ?_
      · rw [hold, Option.some.injEq] at hs'
        rw [← hs', huser, htask']
        exact hne
      · cases hs'
        exact hne
    refine ⟨scoring.set (s.user, s.task) (sc'.updateScoreMode task.scoreMode), ?_, ?_, ?_⟩
    · rw [hmode, ok_bind, hfind, ok_bind, hupdate]
      rfl
    · refine h.set hsubs howned (htidy'.updateScoreMode fun change hchange => ?_)
      rw [hchanges] at hchange
      exact hreadable huser htask' sc task hsc hstored change hchange
    · refine fewerChanges_set sc fun change hchange => ⟨hsc, ?_⟩
      rw [← hchanges]
      exact hchange

/-! ## The callbacks of the subchanges -/

/-- Changing the changes of the score of a submission. -/
theorem modifyAt (h : Wired scoring subs) {submission : String} {s : Submission}
    (hstored : (stores .submission).get? submission = some s) (hs : subs submission = some s)
    {f : Score → Except PyError Score}
    (hf : ∀ sc, scoring.get? (s.user, s.task) = some sc → sc.Tidy →
      (∃ scored, sc.submissions.get? submission = some scored) →
        ∃ sc', f sc = .ok sc' ∧ Score.Rechanged key sc sc') :
    ∃ scoring', scoring.modifyAt stores submission f = .ok scoring' ∧ Wired scoring' subs ∧
      SameScores key scoring scoring' := by
  obtain ⟨sc, hsc, hfind, htidy, hscored⟩ := h.find hs
  obtain ⟨sc', hsc', hrechanged⟩ := hf sc hsc htidy hscored
  refine ⟨scoring.set (s.user, s.task) sc', ?_, ?_, ?_⟩
  · unfold Scoring.modifyAt Scoring.submissionOf
    rw [hstored]
    dsimp only
    rw [ok_bind, hfind, ok_bind, hsc']
    rfl
  · refine h.set (fun _ _ _ => rfl) ?_ hrechanged.tidy
    rw [hrechanged.submissionAt]
    exact h.owned _ _ sc hsc
  · intro p sc'' hget
    rw [Dict.get?_set] at hget
    split at hget
    case isTrue heq =>
      cases hget
      rw [heq]
      exact ⟨sc, hsc, hrechanged.scoreMode, hrechanged.changes⟩
    case isFalse => exact ⟨sc'', hget, rfl, fun _ hchange => .inl hchange⟩

theorem createSubchange (h : Wired scoring subs)
    (hstores : ∀ k s, (stores .submission).get? k = some s → subs k = some s) {c : Subchange}
    {s : Submission} (hs : (stores .submission).get? c.submission = some s)
    (hreadable : ∀ sc, scoring.get? (s.user, s.task) = some sc → Readable sc.scoreMode c)
    (key : String) :
    ∃ scoring', scoring.createSubchange stores key c = .ok scoring' ∧ Wired scoring' subs ∧
      SameScores key scoring scoring' :=
  h.modifyAt hs (hstores _ s hs) fun sc hsc htidy hscored =>
    htidy.createSubchange key (hreadable sc hsc) hscored

theorem deleteSubchange (h : Wired scoring subs)
    (hstores : ∀ k s, (stores .submission).get? k = some s → subs k = some s) (key : String)
    (c : Subchange) :
    ∃ scoring', scoring.deleteSubchange stores key c = .ok scoring' ∧ Wired scoring' subs ∧
      SameScores key scoring scoring' := by
  unfold Scoring.deleteSubchange
  split
  case isTrue => exact ⟨scoring, rfl, h, fun p sc hsc => ⟨sc, hsc, rfl, fun _ hc => .inl hc⟩⟩
  case isFalse hhas =>
    obtain ⟨s, hs⟩ := Stores.has_iff.1 (Bool.of_not_eq_false hhas)
    exact h.modifyAt hs (hstores _ s hs) fun sc _ htidy _ => htidy.deleteSubchange key

/-- A change that stays with its submission is read only where its score has it. -/
theorem updateSubchange (h : Wired scoring subs)
    (hstores : ∀ k s, (stores .submission).get? k = some s → subs k = some s) {old c : Subchange}
    {s : Submission} (hs : (stores .submission).get? c.submission = some s)
    (hreadable : ∀ sc, scoring.get? (s.user, s.task) = some sc → Readable sc.scoreMode c ∨
      old.submission = c.submission ∧ ∀ change ∈ sc.changes, change.1 ≠ key) :
    ∃ scoring', scoring.updateSubchange stores key old c = .ok scoring' ∧ Wired scoring' subs ∧
      SameScores key scoring scoring' := by
  unfold Scoring.updateSubchange
  split
  case isTrue hmove =>
    obtain ⟨mid, hdelete, hmid, hsame⟩ := h.deleteSubchange hstores key old
    obtain ⟨scoring', hcreate, hwired, hsame'⟩ := hmid.createSubchange hstores hs (fun sc hsc => by
      obtain ⟨sc₀, hsc₀, hmode, -⟩ := hsame _ sc hsc
      rw [hmode]
      exact (hreadable sc₀ hsc₀).resolve_right fun hstay => hmove hstay.1) key
    exact ⟨scoring', by rw [hdelete, ok_bind, hcreate], hwired, hsame.trans hsame'⟩
  case isFalse =>
    exact h.modifyAt hs (hstores _ s hs) fun sc hsc htidy hscored =>
      htidy.updateSubchange ((hreadable sc hsc).imp id And.right) hscored

end Wired

end Ranking
end ContestManagement
