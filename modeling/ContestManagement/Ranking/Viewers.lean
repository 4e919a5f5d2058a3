import Mathlib.Logic.Function.Basic
import ContestManagement.Ranking.FinalResults
import ContestManagement.Ranking.Watcher

/-!
# The page of a viewer

A page shows the contests, tasks, teams and users of a ranking and the score of each user for each
task, as it was given; to show a score, it rounds it.  It applies the events in the order in which
they come, and it relies on them: what is created is new to it, what is updated or deleted and what
gets a score is there, and a user or a task that is deleted has no score left.

The callbacks of `ScoringStore` send events that a page can rely on, and keep every score the score
of some submission.
-/

namespace ContestManagement
namespace Ranking

open Lib

/-- What a page shows. -/
structure View where
  has : Kind → String → Bool
  score : String → String → ℚ

/-- The kinds of which a page is told. -/
def Kind.watched : Kind → Bool
  | .contest | .task | .team | .user => true
  | .submission | .subchange => false

namespace View

variable (v : View)

/-- The scores without those of a user or of a task. -/
def withoutScores : Kind → String → String → String → ℚ
  | .user, key, user, task => if user = key then 0 else v.score user task
  | .task, key, user, task => if task = key then 0 else v.score user task
  | _, _, user, task => v.score user task

def setHas (k : Kind) (key : String) (b : Bool) : Kind → String → Bool :=
  Function.update v.has k (Function.update (v.has k) key b)

/-- What a page does with an event. -/
def apply : Event → View
  | .create k key => ⟨v.setHas k key true, v.withoutScores k key⟩
  | .update _ _ => v
  | .delete k key => ⟨v.setHas k key false, v.withoutScores k key⟩
  | .score user task score =>
      { v with score := Function.update v.score user (Function.update (v.score user) task score) }

/-- A page has no score of a user or of a task. -/
def Unscored (k : Kind) (key : String) : Prop := v.withoutScores k key = v.score

/-- What a page relies on. -/
def Expects : Event → Prop
  | .create k key => v.has k key = false
  | .update k key => v.has k key = true
  | .delete k key => v.has k key = true ∧ v.Unscored k key
  | .score user task _ => v.has .user user = true ∧ v.has .task task = true

/-- A page gets from one view to another by events that it can rely on. -/
inductive Follows (start : View) : List Event → View → Prop
  | start : Follows start [] start
  | next {events : List Event} {v : View} {e : Event} :
      Follows start events v → v.Expects e → Follows start (events ++ [e]) (v.apply e)

end View

/-! ## The scores that the stores give -/

/-- Every score is that of some submissions of its user and its task. -/
structure Populated (scoring : Scoring) (subs : String → Option Submission) : Prop where
  nonempty : ∀ user task sc, scoring.get? (user, task) = some sc → sc.submissions.keys ≠ []
  mem : ∀ user task sc, scoring.get? (user, task) = some sc → ∀ key ∈ sc.submissions.keys,
    ∃ s, subs key = some s ∧ s.user = user ∧ s.task = task

namespace Scoring

variable {scoring : Scoring} {user task : String} {sc : Score}

theorem getScore_of_get? (h : scoring.get? (user, task) = some sc) :
    scoring.getScore user task = sc.getScore := by
  rw [getScore, h]

theorem getScore_of_none (h : scoring.get? (user, task) = none) :
    scoring.getScore user task = 0 := by
  rw [getScore, h]

theorem getScore_update {scoring' : Scoring} {found : Option Score}
    (h : scoring'.get? = Function.update scoring.get? (user, task) found) :
    scoring'.getScore = Function.update scoring.getScore user
      (Function.update (scoring.getScore user) task ((found.map Score.getScore).getD 0)) := by
  funext user' task'
  unfold getScore
  rw [h, Function.update_apply, Function.update_apply]
  by_cases huser : user' = user
  · subst huser
    rw [if_pos rfl, Function.update_apply]
    by_cases htask : task' = task
    · rw [if_pos htask, if_pos (by rw [htask])]
      cases found with
      | none => rfl
      | some sc => rfl
    · rw [if_neg htask, if_neg fun heq => htask (Prod.ext_iff.1 heq).2]
  · rw [if_neg huser, if_neg fun heq => huser (Prod.ext_iff.1 heq).1]

theorem find_ok (h : scoring.find user task = .ok sc) : scoring.get? (user, task) = some sc := by
  unfold find at h
  cases hget : scoring.get? (user, task) with
  | none =>
      rw [hget] at h
      cases h
  | some found =>
      rw [hget] at h
      exact congrArg some (Except.ok.inj h)

theorem submissionOf_ok {stores : Stores} {key : String} {s : Submission}
    (h : submissionOf stores key = .ok s) : (stores .submission).get? key = some s := by
  unfold submissionOf at h
  cases hget : (stores .submission).get? key with
  | none =>
      rw [hget] at h
      cases h
  | some found =>
      rw [hget] at h
      exact congrArg some (Except.ok.inj h)

/-- A new score is that of no submission. -/
theorem findOrNew_ok {stores : Stores} (h : scoring.findOrNew stores user task = .ok sc) :
    scoring.get? (user, task) = some sc ∨
      scoring.get? (user, task) = none ∧ sc.submissions.keys = [] ∧ sc.getScore = 0 := by
  unfold findOrNew at h
  cases hget : scoring.get? (user, task) with
  | some found =>
      rw [hget] at h
      exact .inl (congrArg some (Except.ok.inj h))
  | none =>
      rw [hget] at h
      cases hmode : scoreModeOf stores task with
      | error e =>
          rw [hmode] at h
          cases h
      | ok mode =>
          rw [hmode] at h
          cases h
          exact .inr ⟨rfl, rfl, rfl⟩

end Scoring

namespace Score

variable {sc sc' : Score} {key : String}

theorem logged_ok {c : Subchange} (h : sc.logged c = .ok sc') : sc' = sc := by
  unfold logged at h
  split at h
  case h_1 => exact (Except.ok.inj h).symm
  case h_2 => cases h

/-- Nothing can be replayed for a score that has no submissions. -/
theorem getScore_of_resetHistory (h : sc.resetHistory = .ok sc') (hnone : sc'.submissions.keys = []) :
    sc'.getScore = 0 := by
  have hreset := h
  cases hchanges : sc.changes with
  | nil =>
      unfold resetHistory at h
      rw [hchanges] at h
      cases h
      rfl
  | cons change rest =>
      unfold resetHistory appendChanges at h
      rw [hchanges, List.foldlM_cons, bind_eq_ok_iff] at h
      obtain ⟨mid, hmid, -⟩ := h
      obtain ⟨applied, v, happlied, -, -⟩ := appendChange_ok hmid
      obtain ⟨s, -, hget, -, -⟩ := applyChange_ok happlied
      have hmem : change.2.submission ∈ sc.cleared.submissions.keys := Dict.mem_keys_iff.2 ⟨s, hget⟩
      have hkeys : sc.cleared.submissions.keys = sc.submissions.keys := Dict.keys_mapValues _ _
      have hsame := keys_of_cleared (resetHistory_cleared hreset)
      rw [hkeys, ← hsame, hnone] at hmem
      cases hmem

theorem keys_createSubchange {c : Subchange} (h : sc.createSubchange key c = .ok sc') :
    sc'.submissions.keys = sc.submissions.keys := by
  unfold createSubchange at h
  split at h
  case isTrue =>
    have hkeys := keys_of_cleared (appendChange_cleared h)
    exact hkeys
  case isFalse =>
    obtain ⟨mid, hreset, hlogged⟩ := bind_eq_ok_iff.1 h
    have hkeys := keys_of_cleared (resetHistory_cleared hreset)
    rw [logged_ok hlogged, hkeys]

theorem keys_updateSubchange {c : Subchange} (h : sc.updateSubchange key c = .ok sc') :
    sc'.submissions.keys = sc.submissions.keys := by
  obtain ⟨mid, hreset, hlogged⟩ := bind_eq_ok_iff.1 h
  have hkeys := keys_of_cleared (resetHistory_cleared hreset)
  rw [logged_ok hlogged, hkeys]

theorem keys_deleteSubchange (h : sc.deleteSubchange key = .ok sc') :
    sc'.submissions.keys = sc.submissions.keys := by
  have hkeys := keys_of_cleared (resetHistory_cleared h)
  exact hkeys

/-- A score without its submission; it is zero if it has no other ones. -/
theorem deleteSubmission_keys (h : sc.deleteSubmission key = .ok sc')
    (hsome : sc.submissions.keys ≠ []) :
    (∀ key' ∈ sc'.submissions.keys, key' ≠ key ∧ key' ∈ sc.submissions.keys) ∧
      (sc'.submissions.keys = [] → sc'.getScore = 0) := by
  unfold deleteSubmission at h
  cases hget : sc.submissions.get? key with
  | none =>
      simp only [hget, Except.ok.injEq] at h
      subst h
      refine ⟨fun key' hkey' => ⟨?_, hkey'⟩, fun hnone => absurd hnone hsome⟩
      rintro rfl
      obtain ⟨s, hs⟩ := Dict.mem_keys_iff.1 hkey'
      rw [hget] at hs
      cases hs
  | some s =>
      simp only [hget] at h
      refine ⟨fun key' hkey' => ?_, getScore_of_resetHistory h⟩
      rw [keys_of_cleared (resetHistory_cleared h)] at hkey'
      obtain ⟨s', hs'⟩ := Dict.mem_keys_iff.1 hkey'
      rw [Dict.get?_erase] at hs'
      split at hs'
      case isTrue => cases hs'
      case isFalse hne => exact ⟨hne, Dict.mem_keys_iff.2 ⟨s', hs'⟩⟩

/-- The keys of the submissions after one was set. -/
theorem mem_keys_set {s : Submission} {key' : String}
    (h : key' ∈ (sc.submissions.set key (Scored.unscored s)).keys) :
    key' = key ∨ key' ∈ sc.submissions.keys := by
  obtain ⟨s', hs'⟩ := Dict.mem_keys_iff.1 h
  rw [Dict.get?_set] at hs'
  split at hs'
  case isTrue heq => exact .inl heq
  case isFalse => exact .inr (Dict.mem_keys_iff.2 ⟨s', hs'⟩)

theorem keys_set_ne_nil (s : Submission) :
    (sc.submissions.set key (Scored.unscored s)).keys ≠ [] := by
  have hmem : key ∈ (sc.submissions.set key (Scored.unscored s)).keys :=
    Dict.mem_keys_iff.2 ⟨Scored.unscored s, by rw [Dict.get?_set, if_pos rfl]⟩
  exact List.ne_nil_of_mem hmem

end Score

theorem Populated.change {scoring scoring' : Scoring} {subs subs' : String → Option Submission}
    {user task : String} {found : Option Score} (h : Populated scoring subs)
    (hscoring : scoring'.get? = Function.update scoring.get? (user, task) found)
    (hothers : ∀ key s, subs key = some s → (s.user, s.task) ≠ (user, task) → subs' key = some s)
    (hfound : ∀ sc, found = some sc → sc.submissions.keys ≠ [] ∧ ∀ key ∈ sc.submissions.keys,
      ∃ s, subs' key = some s ∧ s.user = user ∧ s.task = task) : Populated scoring' subs' := by
  have hall : ∀ user' task' sc, scoring'.get? (user', task') = some sc →
      sc.submissions.keys ≠ [] ∧ ∀ key ∈ sc.submissions.keys,
        ∃ s, subs' key = some s ∧ s.user = user' ∧ s.task = task' := by
    intro user' task' sc hget
    rw [hscoring, Function.update_apply] at hget
    split at hget
    case isTrue heq =>
      cases heq
      exact hfound sc hget
    case isFalse hne =>
      refine ⟨h.nonempty user' task' sc hget, fun key hkey => ?_⟩
      obtain ⟨s, hs, rfl, rfl⟩ := h.mem user' task' sc hget key hkey
      exact ⟨s, hothers key s hs hne, rfl, rfl⟩
  exact ⟨fun user' task' sc hget => (hall user' task' sc hget).1,
    fun user' task' sc hget => (hall user' task' sc hget).2⟩

/-- A user or a task that no submission refers to has no score. -/
theorem Populated.getScore_eq_zero {scoring : Scoring} {subs : String → Option Submission}
    (h : Populated scoring subs) {user task : String}
    (hnone : ∀ key s, subs key = some s → s.user = user → s.task ≠ task) :
    scoring.getScore user task = 0 := by
  cases hget : scoring.get? (user, task) with
  | none => exact Scoring.getScore_of_none hget
  | some sc =>
      obtain ⟨key, hkey⟩ := List.exists_mem_of_ne_nil _ (h.nonempty user task sc hget)
      obtain ⟨s, hs, huser, htask⟩ := h.mem user task sc hget key hkey
      exact absurd htask (hnone key s hs huser)

/-! ## The events of the callbacks -/

/-- What a page shows while the entities that are pending are out of their stores already. -/
def View.during (pending : Kind → String → Bool) (r : State) : View :=
  ⟨fun k key => k.watched && (r.stores.has k key || pending k key), r.scoring.getScore⟩

/-- The user and the task of a submission are shown. -/
structure Shown (pending : Kind → String → Bool) (stores : Stores) (s : Submission) : Prop where
  user : (stores.has .user s.user || pending .user s.user) = true
  task : (stores.has .task s.task || pending .task s.task) = true

/-- The page of a viewer who was told everything, and the scores behind it. -/
structure Page (start : View) (pending : Kind → String → Bool) (subs : String → Option Submission)
    (w : Watched) : Prop where
  follows : start.Follows w.sent (View.during pending w.state)
  populated : Populated w.state.scoring subs

namespace Page

variable {start : View} {pending : Kind → String → Bool} {subs subs' : String → Option Submission}
  {w w' : Watched} {key : String} {s : Submission}

/-- A score of a shown user for a shown task is set or deleted. -/
theorem change (h : Page start pending subs w) {user task : String} {old new : Score}
    {scoring : Scoring} {found : Option Score}
    (huser : (View.during pending w.state).has .user user = true)
    (htask : (View.during pending w.state).has .task task = true)
    (hold : old.getScore = w.state.scoring.getScore user task)
    (hscoring : scoring.get? = Function.update w.state.scoring.get? (user, task) found)
    (hnew : (found.map Score.getScore).getD 0 = new.getScore)
    (hothers : ∀ key s, subs key = some s → (s.user, s.task) ≠ (user, task) → subs' key = some s)
    (hfound : ∀ sc, found = some sc → sc.submissions.keys ≠ [] ∧ ∀ key ∈ sc.submissions.keys,
      ∃ s, subs' key = some s ∧ s.user = user ∧ s.task = task) :
    Page start pending subs' ((w.withScoring scoring).notifyCallbacks user task old new) := by
  have hscores := Scoring.getScore_update hscoring
  rw [hnew] at hscores
  refine ⟨?_, ?_⟩
  · rw [Watched.state_notifyCallbacks]
    unfold Watched.notifyCallbacks
    split
    case isTrue =>
      have hnext := h.follows.next (e := .score user task new.getScore) ⟨huser, htask⟩
      have hview : (View.during pending w.state).apply (.score user task new.getScore) =
          View.during pending (w.withScoring scoring).state := by
        show View.mk _ _ = View.mk _ _
        rw [show (w.withScoring scoring).state.scoring.getScore = _ from hscores]
        rfl
      rw [hview] at hnext
      exact hnext
    case isFalse hsame =>
      have hview : View.during pending w.state =
          View.during pending (w.withScoring scoring).state := by
        show View.mk _ _ = View.mk _ _
        rw [show (w.withScoring scoring).state.scoring.getScore = _ from hscores,
          ← not_not.1 hsame, hold, Function.update_eq_self, Function.update_eq_self]
        rfl
      rw [← hview]
      exact h.follows
  · rw [Watched.state_notifyCallbacks]
    exact h.populated.change hscoring hothers hfound

theorem createSubmission (h : Page start pending subs w) (hfresh : subs key = none)
    (hshown : Shown pending w.state.stores s) (hok : w.createSubmission key s = .ok w') :
    Page start pending (Function.update subs key (some s)) w' := by
  obtain ⟨sc, hsc, hset⟩ := bind_eq_ok_iff.1 hok
  obtain rfl := Except.ok.inj hset
  have hfound := Scoring.findOrNew_ok hsc
  have hscore : sc.getScore = w.state.scoring.getScore s.user s.task := by
    rcases hfound with hget | ⟨hget, -, hzero⟩
    · rw [Scoring.getScore_of_get? hget]
    · rw [Scoring.getScore_of_none hget, hzero]
  have hne : ∀ key' s', subs key' = some s' → key' ≠ key := by
    rintro key' s' hs' rfl
    rw [hfresh] at hs'
    cases hs'
  refine h.change hshown.user hshown.task hscore (Dict.get?_set_eq _ _ _) rfl ?_ ?_
  · intro key' s' hs' _
    rw [Function.update_of_ne (hne key' s' hs')]
    exact hs'
  · intro sc' hsc'
    cases hsc'
    refine ⟨Score.keys_set_ne_nil s, fun key' hkey' => ?_⟩
    rcases Score.mem_keys_set hkey' with rfl | hold
    · exact ⟨s, Function.update_self _ _ _, rfl, rfl⟩
    · rcases hfound with hget | ⟨-, hnil, -⟩
      · obtain ⟨s', hs', huser, htask⟩ := h.populated.mem _ _ sc hget key' hold
        exact ⟨s', by rw [Function.update_of_ne (hne key' s' hs'), hs'], huser, htask⟩
      · rw [hnil] at hold
        cases hold

theorem deleteSubmission (h : Page start pending subs w) (hs : subs key = some s)
    (hshown : Shown pending w.state.stores s) (hok : w.deleteSubmission key s = .ok w') :
    Page start pending (Function.update subs key none) w' := by
  obtain ⟨sc, hfind, hok⟩ := bind_eq_ok_iff.1 hok
  obtain ⟨sc', hdelete, hset⟩ := bind_eq_ok_iff.1 hok
  obtain rfl := Except.ok.inj hset
  have hget := Scoring.find_ok hfind
  obtain ⟨hkeys, hzero⟩ := Score.deleteSubmission_keys hdelete (h.populated.nonempty _ _ sc hget)
  -- The score is deleted with its last submission.
  have hscoring : (if sc'.submissions.items = [] then w.state.scoring.erase (s.user, s.task)
      else w.state.scoring.set (s.user, s.task) sc').get? =
        Function.update w.state.scoring.get? (s.user, s.task)
          (if sc'.submissions.items = [] then none else some sc') := by
    split
    case isTrue => exact Dict.get?_erase_eq _ _
    case isFalse => exact Dict.get?_set_eq _ _ _
  refine h.change hshown.user hshown.task (Scoring.getScore_of_get? hget).symm hscoring ?_ ?_ ?_
  · split
    case isTrue hnil => exact (hzero (by rw [Dict.keys, hnil]; rfl)).symm
    case isFalse => rfl
  · intro key' s' hs' hne
    have hkey : key' ≠ key := by
      rintro rfl
      rw [hs, Option.some.injEq] at hs'
      subst hs'
      exact hne rfl
    rw [Function.update_of_ne hkey]
    exact hs'
  · intro found hfound
    split at hfound
    case isTrue => cases hfound
    case isFalse hsome =>
      cases hfound
      refine ⟨fun hnil => hsome (List.map_eq_nil_iff.1 hnil), fun key' hkey' => ?_⟩
      obtain ⟨hne, hold⟩ := hkeys key' hkey'
      rw [Function.update_of_ne hne]
      exact h.populated.mem _ _ sc hget key' hold

theorem updateSubmission {old : Submission} (h : Page start pending subs w)
    (hold : subs key = some old) (hshownOld : Shown pending w.state.stores old)
    (hshown : Shown pending w.state.stores s) (hok : w.updateSubmission key old s = .ok w') :
    Page start pending (Function.update subs key (some s)) w' := by
  unfold Watched.updateSubmission at hok
  split at hok
  case isTrue =>
    obtain ⟨mid, hmid, hcreate⟩ := bind_eq_ok_iff.1 hok
    have hpage := h.deleteSubmission hold hshownOld hmid
    have hstores : mid.state.stores = w.state.stores :=
      (Watched.deleteSubmission_changes key old).stores hmid
    have hnext := hpage.createSubmission (Function.update_self _ _ _) (hstores ▸ hshown) hcreate
    rw [Function.update_idem] at hnext
    exact hnext
  case isFalse hsame =>
    obtain ⟨huser, htask⟩ := not_or.1 hsame
    obtain ⟨mode, -, hok⟩ := bind_eq_ok_iff.1 hok
    obtain ⟨sc, hfind, hok⟩ := bind_eq_ok_iff.1 hok
    obtain ⟨sc', hupdate, hset⟩ := bind_eq_ok_iff.1 hok
    obtain rfl := Except.ok.inj hset
    have hget := Scoring.find_ok hfind
    have hkeys := Score.keys_of_cleared (Score.resetHistory_cleared hupdate)
    refine h.change hshown.user hshown.task (Scoring.getScore_of_get? hget).symm
      (Dict.get?_set_eq _ _ _) rfl ?_ ?_
    · intro key' s' hs' hne
      have hkey : key' ≠ key := by
        rintro rfl
        rw [hold, Option.some.injEq] at hs'
        subst hs'
        exact hne (by rw [not_not.1 huser, not_not.1 htask])
      rw [Function.update_of_ne hkey]
      exact hs'
    · intro found hfound
      cases hfound
      refine ⟨?_, fun key' hkey' => ?_⟩
      · show sc'.submissions.keys ≠ []
        rw [hkeys]
        exact Score.keys_set_ne_nil s
      · have hmem : key' ∈ sc'.submissions.keys := hkey'
        rw [hkeys] at hmem
        by_cases hkey : key' = key
        · exact ⟨s, by rw [hkey, Function.update_self], rfl, rfl⟩
        · rw [Function.update_of_ne hkey]
          exact h.populated.mem _ _ sc hget key' ((Score.mem_keys_set hmem).resolve_left hkey)

/-- A callback that keeps the submissions of the score of a submission. -/
theorem modifyAt {submission : String} {f : Score → Except PyError Score}
    (h : Page start pending subs w)
    (hshown : ∀ s, (w.state.stores .submission).get? submission = some s →
      Shown pending w.state.stores s)
    (hkeys : ∀ sc sc', f sc = .ok sc' → sc'.submissions.keys = sc.submissions.keys)
    (hok : w.modifyAt submission f = .ok w') : Page start pending subs w' := by
  obtain ⟨s, hs, hok⟩ := bind_eq_ok_iff.1 hok
  obtain ⟨sc, hfind, hok⟩ := bind_eq_ok_iff.1 hok
  obtain ⟨sc', hsc', hset⟩ := bind_eq_ok_iff.1 hok
  obtain rfl := Except.ok.inj hset
  have hget := Scoring.find_ok hfind
  have hshown' := hshown s (Scoring.submissionOf_ok hs)
  refine h.change hshown'.user hshown'.task (Scoring.getScore_of_get? hget).symm
    (Dict.get?_set_eq _ _ _) rfl (fun _ _ hs' _ => hs') fun found hfound => ?_
  cases hfound
  rw [hkeys sc sc' hsc']
  exact ⟨h.populated.nonempty _ _ sc hget, h.populated.mem _ _ sc hget⟩

theorem createSubchange {c : Subchange} (h : Page start pending subs w)
    (hshown : ∀ s, (w.state.stores .submission).get? c.submission = some s →
      Shown pending w.state.stores s)
    (hok : w.createSubchange key c = .ok w') : Page start pending subs w' :=
  h.modifyAt hshown (fun _ _ => Score.keys_createSubchange) hok

theorem deleteSubchange {c : Subchange} (h : Page start pending subs w)
    (hshown : ∀ s, (w.state.stores .submission).get? c.submission = some s →
      Shown pending w.state.stores s)
    (hok : w.deleteSubchange key c = .ok w') : Page start pending subs w' := by
  unfold Watched.deleteSubchange at hok
  split at hok
  case isTrue => exact Except.ok.inj hok ▸ h
  case isFalse => exact h.modifyAt hshown (fun _ _ => Score.keys_deleteSubchange) hok

theorem updateSubchange {old c : Subchange} (h : Page start pending subs w)
    (hshown : ∀ key s, (w.state.stores .submission).get? key = some s →
      Shown pending w.state.stores s)
    (hok : w.updateSubchange key old c = .ok w') : Page start pending subs w' := by
  unfold Watched.updateSubchange at hok
  split at hok
  case isTrue =>
    obtain ⟨mid, hmid, hcreate⟩ := bind_eq_ok_iff.1 hok
    have hstores : mid.state.stores = w.state.stores :=
      (Watched.deleteSubchange_changes key old).stores hmid
    refine (h.deleteSubchange (hshown _) hmid).createSubchange ?_ hcreate
    rw [hstores]
    exact hshown _
  case isFalse => exact h.modifyAt (hshown _) (fun _ _ => Score.keys_updateSubchange) hok

end Page

end Ranking
end ContestManagement
