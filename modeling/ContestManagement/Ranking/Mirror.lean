import ContestManagement.Ranking.Holds
import ContestManagement.Ranking.Readable
import ContestManagement.Ranking.Stores

/-!
# The scores mirror the stores

`Mirror scoring subs chs mode` says that there is a score for exactly the users and tasks
with submissions, and that it holds their submissions and subchanges in the score mode of the
task.  The maps `subs`, `chs` and `mode` are what the stores give; during a deletion they run
ahead of the callbacks, so the lemmas speak of any maps.
-/

namespace ContestManagement
namespace Ranking

open Lib

/-- The submissions of a user for a task. -/
def subsOf (subs : String → Option Submission) (user task : String) (key : String) :
    Option Submission :=
  (subs key).filter fun s => s.user = user ∧ s.task = task

/-- The subchanges of the submissions of a user for a task. -/
def chsOf (subs : String → Option Submission) (chs : String → Option Subchange)
    (user task : String) (key : String) : Option Subchange :=
  (chs key).filter fun c => (subsOf subs user task c.submission).isSome

theorem subsOf_eq_some {subs : String → Option Submission} {user task key : String}
    {s : Submission} :
    subsOf subs user task key = some s ↔ subs key = some s ∧ s.user = user ∧ s.task = task := by
  simp [subsOf, Option.filter_eq_some_iff]

theorem chsOf_eq_some {subs : String → Option Submission} {chs : String → Option Subchange}
    {user task key : String} {c : Subchange} :
    chsOf subs chs user task key = some c ↔
      chs key = some c ∧ ∃ s, subsOf subs user task c.submission = some s := by
  simp [chsOf, Option.filter_eq_some_iff, Option.isSome_iff_exists]

theorem subsOf_self {subs : String → Option Submission} {key : String} {s : Submission}
    (h : subs key = some s) : subsOf subs s.user s.task key = some s :=
  subsOf_eq_some.2 ⟨h, rfl, rfl⟩

section Maps

variable {subs : String → Option Submission} {chs : String → Option Subchange}
  {user task key : String}

/-- A submission of the user for the task is set. -/
theorem subsOf_update_self (s : Submission) :
    subsOf (Function.update subs key (some s)) s.user s.task =
      Function.update (subsOf subs s.user s.task) key (some s) := by
  funext key'
  unfold subsOf
  rw [Function.update_apply, Function.update_apply]
  split
  case isTrue => simp [Option.filter]
  case isFalse => rfl

theorem subsOf_erase :
    subsOf (Function.update subs key none) user task =
      Function.update (subsOf subs user task) key none := by
  funext key'
  unfold subsOf
  rw [Function.update_apply, Function.update_apply]
  split <;> rfl

/-- Nothing changes for a user and a task that have no part in the change of a submission. -/
theorem subsOf_update_other {new : Option Submission}
    (hold : ∀ s, subs key = some s → (user, task) ≠ (s.user, s.task))
    (hnew : ∀ s, new = some s → (user, task) ≠ (s.user, s.task)) :
    subsOf (Function.update subs key new) user task = subsOf subs user task := by
  have hnone : ∀ o : Option Submission, (∀ s, o = some s → (user, task) ≠ (s.user, s.task)) →
      o.filter (fun s => s.user = user ∧ s.task = task) = none := by
    intro o ho
    rw [Option.eq_none_iff_forall_ne_some]
    intro s hs
    simp only [Option.filter_eq_some_iff, decide_eq_true_eq] at hs
    exact ho s hs.1 (by rw [hs.2.1, hs.2.2])
  funext key'
  unfold subsOf
  rw [Function.update_apply]
  split
  case isTrue heq => rw [heq, hnone new hnew, hnone (subs key) hold]
  case isFalse => rfl

theorem chsOf_congr_subs {subs' : String → Option Submission}
    (h : ∀ k c, chs k = some c → ((∃ s, subsOf subs' user task c.submission = some s) ↔
      ∃ s, subsOf subs user task c.submission = some s)) :
    chsOf subs' chs user task = chsOf subs chs user task := by
  funext k
  refine Option.ext fun c => ?_
  rw [chsOf_eq_some, chsOf_eq_some]
  exact and_congr_right fun hc => h k c hc

theorem chsOf_update_self {c : Subchange} (h : ∃ s, subsOf subs user task c.submission = some s) :
    chsOf subs (Function.update chs key (some c)) user task =
      Function.update (chsOf subs chs user task) key (some c) := by
  funext key'
  unfold chsOf
  rw [Function.update_apply, Function.update_apply]
  split
  case isTrue =>
    obtain ⟨s, hs⟩ := h
    simp [Option.filter, hs]
  case isFalse => rfl

theorem chsOf_erase :
    chsOf subs (Function.update chs key none) user task =
      Function.update (chsOf subs chs user task) key none := by
  funext key'
  unfold chsOf
  rw [Function.update_apply, Function.update_apply]
  split <;> rfl

theorem chsOf_update_other {new : Option Subchange}
    (hold : ∀ c, chs key = some c → subsOf subs user task c.submission = none)
    (hnew : ∀ c, new = some c → subsOf subs user task c.submission = none) :
    chsOf subs (Function.update chs key new) user task = chsOf subs chs user task := by
  have hnone : ∀ o : Option Subchange, (∀ c, o = some c → subsOf subs user task c.submission = none) →
      o.filter (fun c => (subsOf subs user task c.submission).isSome) = none := by
    intro o ho
    rw [Option.eq_none_iff_forall_ne_some]
    intro c hc
    rw [Option.filter_eq_some_iff] at hc
    rw [ho c hc.1] at hc
    exact absurd hc.2 (by decide)
  funext key'
  unfold chsOf
  rw [Function.update_apply]
  split
  case isTrue heq => rw [heq, hnone new hnew, hnone (chs key) hold]
  case isFalse => rfl

end Maps

/-- The scores are those of the submissions and subchanges, in the modes of the tasks. -/
structure Mirror (scoring : Scoring) (subs : String → Option Submission)
    (chs : String → Option Subchange) (mode : String → Option String) : Prop where
  absent : ∀ user task, scoring.get? (user, task) = none → ∀ key, subsOf subs user task key = none
  holds : ∀ user task sc, scoring.get? (user, task) = some sc →
    (∃ key s, subsOf subs user task key = some s) ∧
      ∃ m, mode task = some m ∧ Holds sc (subsOf subs user task) (chsOf subs chs user task) m

namespace Mirror

variable {stores : Stores} {scoring scoring' : Scoring} {subs : String → Option Submission}
  {chs : String → Option Subchange} {mode : String → Option String} {key : String}

theorem congr_chs {chs' : String → Option Subchange} (h : Mirror scoring subs chs mode)
    (hsame : ∀ user task, chsOf subs chs' user task = chsOf subs chs user task) :
    Mirror scoring subs chs' mode := by
  refine ⟨h.absent, fun user task sc hsc => ?_⟩
  rw [hsame]
  exact h.holds user task sc hsc

/-- Only the modes of tasks with submissions matter. -/
theorem congr_mode {mode' : String → Option String} (h : Mirror scoring subs chs mode)
    (hsame : ∀ k s, subs k = some s → mode' s.task = mode s.task) :
    Mirror scoring subs chs mode' := by
  refine ⟨h.absent, fun user task sc hsc => ?_⟩
  obtain ⟨⟨k, s, hs⟩, m, hm, hholds⟩ := h.holds user task sc hsc
  refine ⟨⟨k, s, hs⟩, m, ?_, hholds⟩
  obtain ⟨hstored, -, rfl⟩ := subsOf_eq_some.1 hs
  rw [hsame k s hstored, hm]

theorem get?_of_subs (h : Mirror scoring subs chs mode) {s : Submission} (hs : subs key = some s) :
    ∃ sc m, scoring.get? (s.user, s.task) = some sc ∧ mode s.task = some m ∧
      Holds sc (subsOf subs s.user s.task) (chsOf subs chs s.user s.task) m := by
  cases hget : scoring.get? (s.user, s.task) with
  | none =>
      have hnone := h.absent s.user s.task hget key
      rw [subsOf_self hs] at hnone
      cases hnone
  | some sc =>
      obtain ⟨-, m, hm, hholds⟩ := h.holds s.user s.task sc hget
      exact ⟨sc, m, rfl, hm, hholds⟩

/-- Setting one score, when the maps stay as they are for every other user and task. -/
theorem set {subs' : String → Option Submission} {chs' : String → Option Subchange}
    {user task : String} {sc : Score} {m : String} (h : Mirror scoring subs chs mode)
    (hsubs : ∀ u t, (u, t) ≠ (user, task) → subsOf subs' u t = subsOf subs u t)
    (hchs : ∀ u t, (u, t) ≠ (user, task) → chsOf subs' chs' u t = chsOf subs chs u t)
    (hsome : ∃ key s, subsOf subs' user task key = some s) (hm : mode task = some m)
    (hholds : Holds sc (subsOf subs' user task) (chsOf subs' chs' user task) m) :
    Mirror (scoring.set (user, task) sc) subs' chs' mode := by
  constructor
  · intro u t hget
    rw [Dict.get?_set] at hget
    split at hget
    case isTrue => cases hget
    case isFalse hne =>
      rw [hsubs u t hne]
      exact h.absent u t hget
  · intro u t sc' hget
    rw [Dict.get?_set] at hget
    split at hget
    case isTrue heq =>
      rw [Prod.mk.injEq] at heq
      obtain ⟨rfl, rfl⟩ := heq
      cases hget
      exact ⟨hsome, m, hm, hholds⟩
    case isFalse hne =>
      rw [hsubs u t hne, hchs u t hne]
      exact h.holds u t sc' hget

theorem erase {subs' : String → Option Submission} {user task : String}
    (h : Mirror scoring subs chs mode)
    (hsubs : ∀ u t, (u, t) ≠ (user, task) → subsOf subs' u t = subsOf subs u t)
    (hchs : ∀ u t, (u, t) ≠ (user, task) → chsOf subs' chs u t = chsOf subs chs u t)
    (hnone : ∀ key, subsOf subs' user task key = none) :
    Mirror (scoring.erase (user, task)) subs' chs mode := by
  constructor
  · intro u t hget
    by_cases heq : (u, t) = (user, task)
    · rw [Prod.mk.injEq] at heq
      obtain ⟨rfl, rfl⟩ := heq
      exact hnone
    · rw [Dict.get?_erase, if_neg heq] at hget
      rw [hsubs u t heq]
      exact h.absent u t hget
  · intro u t sc hget
    rw [Dict.get?_erase] at hget
    split at hget
    case isTrue => cases hget
    case isFalse hne =>
      rw [hsubs u t hne, hchs u t hne]
      exact h.holds u t sc hget

/-! ## The callbacks of the submissions -/

theorem createSubmission {s : Submission} (h : Mirror scoring subs chs mode)
    (hfresh : subs key = none) (hchs : ∀ k c, chs k = some c → c.submission ≠ key)
    (hmode : mode s.task = ((stores .task).get? s.task).map Task.scoreMode)
    (hok : scoring.createSubmission stores key s = .ok scoring') :
    Mirror scoring' (Function.update subs key (some s)) chs mode := by
  have hsubs : ∀ u t, (u, t) ≠ (s.user, s.task) →
      subsOf (Function.update subs key (some s)) u t = subsOf subs u t := by
    intro u t hne
    refine subsOf_update_other (fun s' hs' => ?_) fun s' hs' => ?_
    · rw [hfresh] at hs'
      cases hs'
    · cases hs'
      exact hne
  -- No subchange belongs to the new submission.
  have hsame : ∀ u t, chsOf (Function.update subs key (some s)) chs u t = chsOf subs chs u t := by
    intro u t
    refine chsOf_congr_subs fun k c hc => ?_
    unfold subsOf
    rw [Function.update_of_ne (hchs k c hc)]
  unfold Scoring.createSubmission at hok
  rw [bind_eq_ok_iff] at hok
  obtain ⟨sc, hsc, hscoring⟩ := hok
  cases hscoring
  unfold Scoring.findOrNew at hsc
  obtain ⟨m, hm, hholds⟩ : ∃ m, mode s.task = some m ∧
      Holds sc (subsOf subs s.user s.task) (chsOf subs chs s.user s.task) m := by
    cases hget : scoring.get? (s.user, s.task) with
    | some sc' =>
        rw [hget] at hsc
        cases hsc
        obtain ⟨-, m, hm, hholds⟩ := h.holds _ _ _ hget
        exact ⟨m, hm, hholds⟩
    | none =>
        rw [hget] at hsc
        have habsent := h.absent _ _ hget
        unfold Scoring.scoreModeOf at hsc
        cases htask : (stores .task).get? s.task with
        | none =>
            rw [htask] at hsc
            cases hsc
        | some task =>
            rw [htask] at hsc
            cases hsc
            refine ⟨task.scoreMode, by rw [hmode, htask]; rfl, ?_⟩
            have hsubs' : subsOf subs s.user s.task = fun _ => none := funext habsent
            have hchs' : chsOf subs chs s.user s.task = fun _ => none := by
              funext k
              rw [Option.eq_none_iff_forall_ne_some]
              intro c hc
              obtain ⟨-, s', hs'⟩ := chsOf_eq_some.1 hc
              rw [habsent] at hs'
              cases hs'
            rw [hsubs', hchs']
            exact Holds.new task.scoreMode
  refine h.set hsubs (fun u t _ => hsame u t) ⟨key, s, ?_⟩ hm ?_
  · rw [subsOf_update_self, Function.update_self]
  · rw [subsOf_update_self, hsame]
    refine hholds.createSubmission s ?_
    unfold subsOf
    rw [hfresh]
    rfl

theorem deleteSubmission {s : Submission} (h : Mirror scoring subs chs mode)
    (hs : subs key = some s) (hok : scoring.deleteSubmission key s = .ok scoring') :
    Mirror scoring' (Function.update subs key none) chs mode := by
  have hsubs : ∀ u t, (u, t) ≠ (s.user, s.task) →
      subsOf (Function.update subs key none) u t = subsOf subs u t := by
    intro u t hne
    refine subsOf_update_other (fun s' hs' => ?_) fun s' hs' => by cases hs'
    rw [hs, Option.some.injEq] at hs'
    exact hs' ▸ hne
  have hchs : ∀ u t, (u, t) ≠ (s.user, s.task) →
      chsOf (Function.update subs key none) chs u t = chsOf subs chs u t :=
    fun u t hne => chsOf_congr_subs fun k c _ => by rw [hsubs u t hne]
  unfold Scoring.deleteSubmission at hok
  rw [bind_eq_ok_iff] at hok
  obtain ⟨sc, hfind, hok⟩ := hok
  rw [bind_eq_ok_iff] at hok
  obtain ⟨sc', hdelete, hscoring⟩ := hok
  cases hscoring
  obtain ⟨sc₀, m, hget, hm, hholds₀⟩ := h.get?_of_subs hs
  have hsc : sc₀ = sc := by
    unfold Scoring.find at hfind
    rw [hget] at hfind
    exact Except.ok.inj hfind
  subst hsc
  have hholds : Holds sc' (subsOf (Function.update subs key none) s.user s.task)
      (chsOf (Function.update subs key none) chs s.user s.task) m := by
    have hheld := hholds₀.deleteSubmission hdelete
    rw [subsOf_erase]
    have hfilter : chsOf (Function.update subs key none) chs s.user s.task = fun k =>
        (chsOf subs chs s.user s.task k).filter fun c => c.submission ≠ key := by
      funext k
      refine Option.ext fun c => ?_
      rw [chsOf_eq_some, Option.filter_eq_some_iff, chsOf_eq_some, subsOf_erase,
        Function.update_apply]
      by_cases hkey : c.submission = key
      · simp [hkey]
      · simp [hkey]
    rw [hfilter]
    exact hheld
  split
  case isTrue hempty =>
    refine h.erase hsubs hchs fun key' => ?_
    rw [← hholds.submissions key']
    show (sc'.submissions.items.lookup key').map Scored.submission = none
    rw [hempty]
    rfl
  case isFalse hsome =>
    refine h.set hsubs hchs ?_ hm hholds
    obtain ⟨item, hitem⟩ := List.exists_mem_of_ne_nil _ hsome
    refine ⟨item.1, item.2.submission, ?_⟩
    rw [← hholds.submissions, Dict.mem_items_iff.1 hitem]
    rfl

theorem updateSubmission {old s : Submission} (h : Mirror scoring subs chs mode)
    (hold : subs key = some old)
    (hmoved : (old.user = s.user ∧ old.task = s.task) ∨ ∀ k c, chs k = some c → c.submission ≠ key)
    (hmode : mode s.task = ((stores .task).get? s.task).map Task.scoreMode)
    (hok : scoring.updateSubmission stores key old s = .ok scoring') :
    Mirror scoring' (Function.update subs key (some s)) chs mode := by
  unfold Scoring.updateSubmission at hok
  split at hok
  case isTrue hmove =>
    rw [bind_eq_ok_iff] at hok
    obtain ⟨mid, hdelete, hcreate⟩ := hok
    have hchs := hmoved.resolve_left fun hsame => by
      rcases hmove with hne | hne
      · exact hne hsame.1
      · exact hne hsame.2
    have hmid := h.deleteSubmission hold hdelete
    have hfinal := hmid.createSubmission (by rw [Function.update_self]) hchs hmode hcreate
    rwa [Function.update_idem] at hfinal
  case isFalse hstay =>
    have huser : old.user = s.user := by
      by_contra hne
      exact hstay (Or.inl hne)
    have htask : old.task = s.task := by
      by_contra hne
      exact hstay (Or.inr hne)
    rw [bind_eq_ok_iff] at hok
    obtain ⟨scoreMode, hscoreMode, hok⟩ := hok
    rw [bind_eq_ok_iff] at hok
    obtain ⟨sc, hfind, hok⟩ := hok
    rw [bind_eq_ok_iff] at hok
    obtain ⟨sc', hupdate, hscoring⟩ := hok
    cases hscoring
    obtain ⟨sc₀, m, hget, hm, hholds⟩ := h.get?_of_subs hold
    rw [huser, htask] at hget hholds
    rw [htask] at hm
    have hsc : sc₀ = sc := by
      unfold Scoring.find at hfind
      rw [hget] at hfind
      exact Except.ok.inj hfind
    subst hsc
    have hsubs : ∀ u t, (u, t) ≠ (s.user, s.task) →
        subsOf (Function.update subs key (some s)) u t = subsOf subs u t := by
      intro u t hne
      refine subsOf_update_other (fun s' hs' => ?_) fun s' hs' => ?_
      · rw [hold, Option.some.injEq] at hs'
        rw [← hs', huser, htask]
        exact hne
      · cases hs'
        exact hne
    -- The submission is there before and after, so the same subchanges belong to the score.
    have hchs : ∀ u t, chsOf (Function.update subs key (some s)) chs u t = chsOf subs chs u t := by
      intro u t
      by_cases heq : (u, t) = (s.user, s.task)
      · rw [Prod.mk.injEq] at heq
        obtain ⟨rfl, rfl⟩ := heq
        refine chsOf_congr_subs fun k c _ => ?_
        rw [subsOf_update_self, Function.update_apply]
        split
        case isTrue hkey =>
          have hself := subsOf_self hold
          rw [huser, htask] at hself
          rw [hkey, hself]
          simp
        case isFalse => rfl
      · exact chsOf_congr_subs fun k c _ => by rw [hsubs u t heq]
    have hheld := hholds.updateSubmission hupdate
    -- The score mode that is set is the one the score has.
    have hsetMode : sc'.updateScoreMode scoreMode = sc' := by
      have hstored : mode s.task = some scoreMode := by
        unfold Scoring.scoreModeOf at hscoreMode
        cases htask' : (stores .task).get? s.task with
        | none =>
            rw [htask'] at hscoreMode
            cases hscoreMode
        | some task =>
            rw [htask'] at hscoreMode
            cases hscoreMode
            rw [hmode, htask']
            rfl
      have hsame : scoreMode = sc'.scoreMode := by
        rw [hheld.scoreMode]
        exact Option.some.inj (hstored.symm.trans hm)
      rw [hsame]
      rfl
    rw [hsetMode]
    refine h.set hsubs (fun u t _ => hchs u t) ⟨key, s, ?_⟩ hm ?_
    · rw [subsOf_update_self, Function.update_self]
    · rw [subsOf_update_self, hchs]
      exact hheld

/-! ## The callbacks of the subchanges -/

theorem modifyAt_ok {submission : String} {f : Score → Except PyError Score}
    (hok : Scoring.modifyAt stores scoring submission f = .ok scoring') :
    ∃ s sc sc', (stores .submission).get? submission = some s ∧
      scoring.get? (s.user, s.task) = some sc ∧ f sc = .ok sc' ∧
        scoring' = scoring.set (s.user, s.task) sc' := by
  unfold Scoring.modifyAt at hok
  rw [bind_eq_ok_iff] at hok
  obtain ⟨s, hs, hok⟩ := hok
  rw [bind_eq_ok_iff] at hok
  obtain ⟨sc, hsc, hok⟩ := hok
  rw [bind_eq_ok_iff] at hok
  obtain ⟨sc', hsc', hscoring⟩ := hok
  unfold Scoring.submissionOf at hs
  unfold Scoring.find at hsc
  refine ⟨s, sc, sc', ?_, ?_, hsc', (Except.ok.inj hscoring).symm⟩
  · split at hs
    case h_1 s' hs' => rw [hs', Except.ok.inj hs]
    case h_2 => cases hs
  · split at hsc
    case h_1 sc₁ hsc₁ => rw [hsc₁, Except.ok.inj hsc]
    case h_2 => cases hsc

/-- Changing the score of a submission, when only it holds the changed subchange. -/
theorem modifyAt {submission : String} {f : Score → Except PyError Score} {new : Option Subchange}
    (h : Mirror scoring subs chs mode) (hstores : ∀ k, (stores .submission).get? k = subs k)
    (hold : ∀ c, chs key = some c → c.submission = submission)
    (hnew : ∀ c, new = some c → c.submission = submission)
    (hf : ∀ s sc sc' m, subs submission = some s →
      Holds sc (subsOf subs s.user s.task) (chsOf subs chs s.user s.task) m → f sc = .ok sc' →
      Holds sc' (subsOf subs s.user s.task)
        (chsOf subs (Function.update chs key new) s.user s.task) m)
    (hok : Scoring.modifyAt stores scoring submission f = .ok scoring') :
    Mirror scoring' subs (Function.update chs key new) mode := by
  obtain ⟨s, sc, sc', hs, hget, hsc', rfl⟩ := modifyAt_ok hok
  rw [hstores] at hs
  obtain ⟨hsome, m, hm, hholds⟩ := h.holds _ _ _ hget
  have hother : ∀ u t, (u, t) ≠ (s.user, s.task) → subsOf subs u t submission = none := by
    intro u t hne
    rw [Option.eq_none_iff_forall_ne_some]
    intro s' hs'
    obtain ⟨hstored, rfl, rfl⟩ := subsOf_eq_some.1 hs'
    rw [hs, Option.some.injEq] at hstored
    exact hne (by rw [hstored])
  refine h.set (fun _ _ _ => rfl) (fun u t hne => ?_) hsome hm (hf s sc sc' m hs hholds hsc')
  refine chsOf_update_other (fun c hc => ?_) fun c hc => ?_
  · rw [hold c hc]
    exact hother u t hne
  · rw [hnew c hc]
    exact hother u t hne

theorem createSubchange {c : Subchange} (h : Mirror scoring subs chs mode)
    (hstores : ∀ k, (stores .submission).get? k = subs k) (hfresh : chs key = none) (hc : c.NonNeg)
    (hok : scoring.createSubchange stores key c = .ok scoring') :
    Mirror scoring' subs (Function.update chs key (some c)) mode := by
  refine h.modifyAt hstores (fun c' hc' => ?_) (fun c' hc' => ?_) ?_ hok
  · rw [hfresh] at hc'
    cases hc'
  · cases hc'
    rfl
  · intro s sc sc' m hs hholds hf
    rw [chsOf_update_self ⟨s, subsOf_self hs⟩]
    refine hholds.createSubchange ?_ hc hf
    unfold chsOf
    rw [hfresh]
    rfl

theorem deleteSubchange {c : Subchange} (h : Mirror scoring subs chs mode)
    (hstores : ∀ k, (stores .submission).get? k = subs k) (hc : chs key = some c)
    (hstored : stores.has .submission c.submission = true)
    (hok : scoring.deleteSubchange stores key c = .ok scoring') :
    Mirror scoring' subs (Function.update chs key none) mode := by
  unfold Scoring.deleteSubchange at hok
  rw [if_neg (by rw [hstored]; decide)] at hok
  refine h.modifyAt hstores (fun c' hc' => ?_) (fun c' hc' => by cases hc') ?_ hok
  · rw [hc, Option.some.injEq] at hc'
    rw [hc']
  · intro s sc sc' m hs hholds hf
    rw [chsOf_erase]
    exact hholds.deleteSubchange hf

theorem updateSubchange {old c : Subchange} (h : Mirror scoring subs chs mode)
    (hstores : ∀ k, (stores .submission).get? k = subs k) (hold : chs key = some old)
    (hstored : stores.has .submission old.submission = true) (hc : c.NonNeg)
    (hplace : old.submission = c.submission → ∀ s, subs c.submission = some s → ∀ k c',
      chs k = some c' → k ≠ key → (∃ s', subsOf subs s.user s.task c'.submission = some s') →
        (changeBefore (k, c') (key, old) = true ↔ changeBefore (k, c') (key, c) = true))
    (hok : scoring.updateSubchange stores key old c = .ok scoring') :
    Mirror scoring' subs (Function.update chs key (some c)) mode := by
  unfold Scoring.updateSubchange at hok
  split at hok
  case isTrue =>
    rw [bind_eq_ok_iff] at hok
    obtain ⟨mid, hdelete, hcreate⟩ := hok
    have hmid := h.deleteSubchange hstores hold hstored hdelete
    have hfinal := hmid.createSubchange hstores (by rw [Function.update_self]) hc hcreate
    rwa [Function.update_idem] at hfinal
  case isFalse hsame =>
    rw [not_not] at hsame
    refine h.modifyAt hstores (fun c' hc' => ?_) (fun c' hc' => ?_) ?_ hok
    · rw [hold, Option.some.injEq] at hc'
      rw [← hc', hsame]
    · cases hc'
      rfl
    · intro s sc sc' m hs hholds hf
      rw [chsOf_update_self ⟨s, subsOf_self hs⟩]
      have hself : chsOf subs chs s.user s.task key = some old :=
        chsOf_eq_some.2 ⟨hold, s, by rw [hsame]; exact subsOf_self hs⟩
      refine hholds.updateSubchange hself ?_ hc hf
      intro other hmem hne
      obtain ⟨hstored', s', hs'⟩ := chsOf_eq_some.1 ((hholds.changes other.1 other.2).1 hmem)
      exact hplace hsame s hs other.1 other.2 hstored' hne ⟨s', hs'⟩

end Mirror

end Ranking
end ContestManagement
