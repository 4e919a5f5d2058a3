import ContestManagement.Ranking.Readable

/-!
# Scores that no callback can break

A `Score` is tidy when all its changes can be read in its mode and belong to its submissions, and
its results come from them.  No callback raises for a tidy score, and each leaves a tidy one, as
long as the changes stay readable: the new change, or, where the score mode is set, the changes that
are there.  A tidy score need not be the replay of its changes: the score mode is set without one.
-/

namespace ContestManagement
namespace Ranking

open Lib

namespace Score

variable {sc sc' : Score} {c : Subchange} {key : String}

/-- The submission of a key. -/
def submissionAt (sc : Score) (key : String) : Option Submission :=
  (sc.submissions.get? key).map Scored.submission

/-- The details of each submission are those of a change. -/
def ExtrasOf (changes : List (String × Subchange)) (sc : Score) : Prop :=
  ∀ s ∈ sc.scoreds, s.extra = [] ∨ ∃ change ∈ changes, change.2.extra = some s.extra

structure Tidy (sc : Score) : Prop where
  released : sc.released.Perm sc.tokened
  extras : ExtrasOf sc.changes sc
  readable : ∀ change ∈ sc.changes, Readable sc.scoreMode change.2
  stored : ∀ change ∈ sc.changes, ∃ s, sc.submissions.get? change.2.submission = some s

theorem Tidy.good (h : sc.Tidy) : sc.Good := by
  refine ⟨h.released, fun hmode s hs => ?_⟩
  rcases h.extras s hs with hempty | ⟨change, hchange, hextra⟩
  · rw [hempty]
    intro text htext
    cases htext
  · exact (h.readable change hchange).numbers hmode s.extra hextra

theorem ExtrasOf.mono {changes more : List (String × Subchange)} (h : ExtrasOf changes sc)
    (hsub : changes ⊆ more) : ExtrasOf more sc := by
  intro s hs
  rcases h s hs with hempty | ⟨change, hchange, hextra⟩
  · exact .inl hempty
  · exact .inr ⟨change, hsub hchange, hextra⟩

/-- A change gives its details, or leaves those that are there. -/
theorem ExtrasOf.appendChange {changes : List (String × Subchange)} (h : ExtrasOf changes sc)
    (hok : sc.appendChange c = .ok sc') (key : String) : ExtrasOf (changes ++ [(key, c)]) sc' := by
  obtain ⟨mid, v, hmid, -, rfl⟩ := appendChange_ok hok
  obtain ⟨s, released, hget, -, rfl⟩ := applyChange_ok hmid
  obtain ⟨others, hbefore, hafter⟩ := scoreds_applied hget released
  have hscoreds : ((sc.applied c s released).note c.time v).scoreds =
      (sc.applied c s released).scoreds := by
    rw [scoreds, note_submissions, scoreds]
  have hold : ∀ s' ∈ s :: others, s'.extra = [] ∨
      ∃ change ∈ changes ++ [(key, c)], change.2.extra = some s'.extra := fun s' hs' =>
    h.mono (List.subset_append_left _ _) s' (hbefore.mem_iff.2 hs')
  intro s' hs'
  rw [hscoreds] at hs'
  rcases List.mem_cons.1 (hafter.mem_iff.1 hs') with rfl | hs'
  · cases hextra : c.extra with
    | none =>
        have hsame : (s.apply c).extra = s.extra := by simp [Scored.apply, hextra]
        rw [hsame]
        exact hold s List.mem_cons_self
    | some texts =>
        refine .inr ⟨(key, c), by simp, ?_⟩
        simp [Scored.apply, hextra]
  · exact hold s' (List.mem_cons_of_mem _ hs')

theorem submissionAt_of_cleared (hcleared : sc'.cleared = sc.cleared) :
    sc'.submissionAt = sc.submissionAt :=
  funext (get?_of_cleared hcleared)

/-- A reset of readable changes of stored submissions ends with a tidy score. -/
theorem exists_tidy_of_resetHistory
    (hreadable : ∀ change ∈ sc.changes, Readable sc.scoreMode change.2)
    (hstored : ∀ change ∈ sc.changes, ∃ s, sc.submissions.get? change.2.submission = some s) :
    ∃ sc', sc.resetHistory = .ok sc' ∧ sc'.Tidy ∧ sc'.cleared = sc.cleared := by
  obtain ⟨sc', hreset⟩ := resetHistory_ok hreadable hstored
  have hcleared := resetHistory_cleared hreset
  have hextras : ExtrasOf sc.changes sc' := by
    refine foldlM_ok_induction (P := ExtrasOf) hreset ?_ ?_
    · intro s hs
      obtain ⟨key, hkey⟩ := mem_scoreds_iff.1 hs
      simp only [cleared, Dict.get?_mapValues, Option.map_eq_some_iff] at hkey
      obtain ⟨s', -, rfl⟩ := hkey
      exact .inl rfl
    · intro done change t t' _ ht hstep
      exact ht.appendChange hstep change.1
  refine ⟨sc', hreset, ⟨?_, ?_, ?_, ?_⟩, hcleared⟩
  · exact ((good_cleared sc).of_appendChanges hreset).released
  · rw [changes_of_cleared hcleared]
    exact hextras
  · rw [changes_of_cleared hcleared, scoreMode_of_cleared hcleared]
    exact hreadable
  · rw [changes_of_cleared hcleared]
    exact fun change hchange => stored_of_cleared hcleared (hstored change hchange)

/-! ## The callbacks of the subchanges -/

/-- A score after a callback for a subchange: the same submissions and mode, and no changes but
those that were there and the one of the key. -/
structure Rechanged (key : String) (sc sc' : Score) : Prop where
  tidy : sc'.Tidy
  submissionAt : sc'.submissionAt = sc.submissionAt
  scoreMode : sc'.scoreMode = sc.scoreMode
  changes : ∀ change ∈ sc'.changes, change ∈ sc.changes ∨ change.1 = key

/-- A reset after the changes were replaced. -/
theorem Tidy.resetHistory (h : sc.Tidy) {changes : List (String × Subchange)}
    (hchanges : ∀ change ∈ changes, change ∈ sc.changes ∨ change.1 = key ∧
      Readable sc.scoreMode change.2 ∧
        ∃ s, sc.submissions.get? change.2.submission = some s) :
    ∃ sc', { sc with changes := changes }.resetHistory = .ok sc' ∧ Rechanged key sc sc' := by
  obtain ⟨sc', hreset, htidy, hcleared⟩ :=
    @exists_tidy_of_resetHistory { sc with changes := changes }
      (fun change hchange => by
        rcases hchanges change hchange with hold | ⟨-, hreadable, -⟩
        · exact h.readable change hold
        · exact hreadable)
      (fun change hchange => by
        rcases hchanges change hchange with hold | ⟨-, -, hstored⟩
        · exact h.stored change hold
        · exact hstored)
  have hsubmissions := submissionAt_of_cleared hcleared
  have hmode := scoreMode_of_cleared hcleared
  refine ⟨sc', hreset, htidy, hsubmissions, hmode, ?_⟩
  rw [changes_of_cleared hcleared]
  intro change hchange
  rcases hchanges change hchange with hold | ⟨hkey, -⟩
  · exact .inl hold
  · exact .inr hkey

theorem Rechanged.logged (h : Rechanged key sc sc')
    (hstored : ∃ s, sc.submissions.get? c.submission = some s) : sc'.logged c = .ok sc' := by
  obtain ⟨s, hs⟩ := hstored
  have hsame := congrFun h.submissionAt c.submission
  rw [Score.submissionAt, Score.submissionAt, hs] at hsame
  obtain ⟨s', hs', -⟩ := Option.map_eq_some_iff.1 hsame
  unfold Score.logged
  rw [hs']

theorem mem_of_mem_insertChange {change : String × Subchange}
    {changes : List (String × Subchange)} {x : String × Subchange}
    (hx : x ∈ insertChange change changes) : x = change ∨ x ∈ changes := by
  induction changes with
  | nil => cases hx
  | cons first rest ih =>
      unfold insertChange at hx
      split at hx
      case isTrue => exact List.mem_cons.1 hx
      case isFalse =>
        rcases List.mem_cons.1 hx with rfl | hx
        · exact .inr List.mem_cons_self
        · exact (ih hx).imp id (List.mem_cons_of_mem _)

theorem Tidy.createSubchange (h : sc.Tidy) (key : String) (hreadable : Readable sc.scoreMode c)
    (hstored : ∃ s, sc.submissions.get? c.submission = some s) :
    ∃ sc', sc.createSubchange key c = .ok sc' ∧ Rechanged key sc sc' := by
  unfold Score.createSubchange
  split
  case isTrue =>
    obtain ⟨s, hs⟩ := hstored
    obtain ⟨mid, hmid, hgood⟩ := h.good.appendChange hreadable hs
    have hcleared := appendChange_cleared hmid
    have hstored' : ∀ change ∈ sc.changes ++ [(key, c)],
        ∃ s, sc.submissions.get? change.2.submission = some s := by
      intro change hchange
      rw [List.mem_append, List.mem_singleton] at hchange
      rcases hchange with hold | rfl
      · exact h.stored change hold
      · exact ⟨s, hs⟩
    have hsubmissions := submissionAt_of_cleared hcleared
    have hmode := scoreMode_of_cleared hcleared
    refine ⟨{ mid with changes := sc.changes ++ [(key, c)] }, ?_, ⟨?_, ?_, ?_, ?_⟩,
      hsubmissions, hmode, ?_⟩
    · rw [appendChange_withChanges, hmid]
      rfl
    · exact hgood.released
    · exact h.extras.appendChange hmid key
    · intro change hchange
      show Readable mid.scoreMode change.2
      rw [hmode]
      rcases List.mem_append.1 hchange with hold | hnew
      · exact h.readable change hold
      · rw [List.mem_singleton] at hnew
        exact hnew ▸ hreadable
    · exact fun change hchange => stored_of_cleared hcleared (hstored' change hchange)
    · intro change hchange
      rcases List.mem_append.1 hchange with hold | hnew
      · exact .inl hold
      · rw [List.mem_singleton] at hnew
        exact .inr (hnew ▸ rfl)
  case isFalse =>
    have hchanges : ∀ change ∈ insertChange (key, c) sc.changes, change ∈ sc.changes ∨
        change.1 = key ∧ Readable sc.scoreMode change.2 ∧
          ∃ s, sc.submissions.get? change.2.submission = some s := by
      intro change hchange
      rcases mem_of_mem_insertChange hchange with rfl | hold
      · exact .inr ⟨rfl, hreadable, hstored⟩
      · exact .inl hold
    obtain ⟨sc', hreset, hrechanged⟩ := h.resetHistory hchanges
    exact ⟨sc', by rw [hreset, ok_bind, hrechanged.logged hstored], hrechanged⟩

/-- Where the score does not have the change, it is not read. -/
theorem Tidy.updateSubchange (h : sc.Tidy)
    (hreadable : Readable sc.scoreMode c ∨ ∀ change ∈ sc.changes, change.1 ≠ key)
    (hstored : ∃ s, sc.submissions.get? c.submission = some s) :
    ∃ sc', sc.updateSubchange key c = .ok sc' ∧ Rechanged key sc sc' := by
  have hchanges : ∀ change ∈ sc.changes.map fun x => if x.1 = key then (key, c) else x,
      change ∈ sc.changes ∨ change.1 = key ∧ Readable sc.scoreMode change.2 ∧
        ∃ s, sc.submissions.get? change.2.submission = some s := by
    intro change hchange
    obtain ⟨x, hx, rfl⟩ := List.mem_map.1 hchange
    split
    case isTrue hkey =>
      rcases hreadable with hreadable | habsent
      · exact .inr ⟨rfl, hreadable, hstored⟩
      · exact absurd hkey (habsent x hx)
    case isFalse => exact .inl hx
  obtain ⟨sc', hreset, hrechanged⟩ := h.resetHistory hchanges
  refine ⟨sc', ?_, hrechanged⟩
  unfold Score.updateSubchange
  dsimp only
  rw [hreset, ok_bind, hrechanged.logged hstored]

theorem Tidy.deleteSubchange (h : sc.Tidy) (key : String) :
    ∃ sc', sc.deleteSubchange key = .ok sc' ∧ Rechanged key sc sc' :=
  h.resetHistory fun _ hchange => .inl (List.mem_of_mem_filter hchange)

/-! ## The callbacks of the submissions -/

theorem tidy_new (scoreMode : String) : (Score.new scoreMode).Tidy where
  released := List.Perm.refl _
  extras _ hs := by cases hs
  readable _ hchange := by cases hchange
  stored _ hchange := by cases hchange

theorem submissionAt_createSubmission (sc : Score) (key : String) (s : Submission) :
    (sc.createSubmission key s).submissionAt = Function.update sc.submissionAt key (some s) := by
  funext key'
  unfold submissionAt Score.createSubmission
  dsimp only
  rw [Dict.get?_set, Function.update_apply]
  split
  case isTrue => rfl
  case isFalse => rfl

/-- A submission that no change has reached has no part in the results. -/
theorem Tidy.createSubmission (h : sc.Tidy) (s : Submission) (hfresh : sc.submissionAt key = none) :
    (sc.createSubmission key s).Tidy := by
  have hnone : sc.submissions.get? key = none := Option.map_eq_none_iff.1 hfresh
  have hscoreds : (sc.createSubmission key s).scoreds = sc.scoreds ++ [Scored.unscored s] := by
    unfold scoreds Score.createSubmission
    dsimp only
    rw [Dict.items_set_of_none hnone, List.map_append, List.map_singleton]
  refine ⟨?_, fun s' hs' => ?_, h.readable, fun change hchange => ?_⟩
  · have htokened : (sc.createSubmission key s).tokened = sc.tokened := by
      unfold tokened
      rw [hscoreds, List.filter_append]
      simp [Scored.unscored]
    rw [htokened]
    exact h.released
  · rw [hscoreds, List.mem_append, List.mem_singleton] at hs'
    rcases hs' with hs' | rfl
    · exact h.extras s' hs'
    · exact .inl rfl
  · obtain ⟨s', hs'⟩ := h.stored change hchange
    have hne : change.2.submission ≠ key := by
      intro heq
      rw [heq, hnone] at hs'
      cases hs'
    exact ⟨s', by rw [Score.createSubmission, Dict.get?_set, if_neg hne, hs']⟩

theorem Tidy.updateSubmission (h : sc.Tidy) (key : String) (s : Submission) :
    ∃ sc', sc.updateSubmission key s = .ok sc' ∧ sc'.Tidy ∧ sc'.changes = sc.changes ∧
      sc'.submissionAt = Function.update sc.submissionAt key (some s) := by
  obtain ⟨sc', hreset, htidy, hcleared⟩ :=
    @exists_tidy_of_resetHistory (sc.createSubmission key s) h.readable fun change hchange => by
      obtain ⟨s', hs'⟩ := h.stored change hchange
      unfold Score.createSubmission
      dsimp only
      rw [Dict.get?_set]
      split
      case isTrue => exact ⟨_, rfl⟩
      case isFalse => exact ⟨s', hs'⟩
  refine ⟨sc', hreset, htidy, ?_, ?_⟩
  · rw [changes_of_cleared hcleared]
    rfl
  · rw [submissionAt_of_cleared hcleared, submissionAt_createSubmission]

theorem Tidy.updateScoreMode (h : sc.Tidy) {scoreMode : String}
    (hreadable : ∀ change ∈ sc.changes, Readable scoreMode change.2) :
    (sc.updateScoreMode scoreMode).Tidy :=
  ⟨h.released, h.extras, hreadable, h.stored⟩

/-- The changes of a submission go with it. -/
theorem Tidy.deleteSubmission (h : sc.Tidy) (key : String) :
    ∃ sc', sc.deleteSubmission key = .ok sc' ∧ sc'.Tidy ∧
      (∀ change ∈ sc'.changes, change ∈ sc.changes) ∧
      sc'.submissionAt = Function.update sc.submissionAt key none := by
  unfold Score.deleteSubmission
  cases hget : sc.submissions.get? key with
  | none =>
      refine ⟨sc, rfl, h, fun _ hchange => hchange, ?_⟩
      have hnone : sc.submissionAt key = none := by rw [submissionAt, hget, Option.map_none]
      rw [← hnone, Function.update_eq_self]
  | some s =>
      obtain ⟨sc', hreset, htidy, hcleared⟩ :=
        @exists_tidy_of_resetHistory { sc with
          submissions := sc.submissions.erase key
          changes := sc.changes.filter fun c => c.2.submission ≠ key }
          (fun change hchange => h.readable change (List.mem_of_mem_filter hchange))
          fun change hchange => by
            obtain ⟨s', hs'⟩ := h.stored change (List.mem_of_mem_filter hchange)
            have hne : change.2.submission ≠ key := by simpa using (List.mem_filter.1 hchange).2
            exact ⟨s', by rw [Dict.get?_erase, if_neg hne, hs']⟩
      refine ⟨sc', hreset, htidy, ?_, ?_⟩
      · rw [changes_of_cleared hcleared]
        exact fun change hchange => List.mem_of_mem_filter hchange
      · rw [submissionAt_of_cleared hcleared]
        funext key'
        unfold submissionAt
        dsimp only
        rw [Dict.get?_erase, Function.update_apply]
        split
        case isTrue => rfl
        case isFalse => rfl

end Score

end Ranking
end ContestManagement
