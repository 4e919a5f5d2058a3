import ContestManagement.Ranking.Padding

/-!
# A score is the replay of its changes

`append_change` takes a `Score` from change to change, and `reset_history` starts again from
submissions that no change has reached.  A `Score` is canonical when a reset would change
nothing.  Each callback that resets leaves a canonical `Score`; appending the newest change
and adding a submission keep it canonical without a reset.

Two canonical `Score`s with the same submissions, changes and mode have the same results,
whatever the order in which they hold the submissions.
-/

namespace ContestManagement
namespace Ranking

open Lib

namespace Score

variable {sc sc' mid : Score} {c : Subchange} {s : Scored}

/-! ## One change -/

theorem applyChange_of_get? (h : sc.submissions.get? c.submission = some s) :
    sc.applyChange c = sc.releasedWithout s >>= fun released => .ok (sc.applied c s released) := by
  unfold applyChange
  rw [h]
  rfl

theorem applyChange_ok (h : sc.applyChange c = .ok mid) :
    ∃ s released, sc.submissions.get? c.submission = some s ∧ sc.releasedWithout s = .ok released ∧
      mid = sc.applied c s released := by
  cases hget : sc.submissions.get? c.submission with
  | none =>
      unfold applyChange at h
      rw [hget] at h
      cases h
  | some s =>
      rw [applyChange_of_get? hget, bind_eq_ok_iff] at h
      obtain ⟨released, hreleased, hmid⟩ := h
      exact ⟨s, released, rfl, hreleased, (Except.ok.inj hmid).symm⟩

theorem appendChange_ok (h : sc.appendChange c = .ok sc') :
    ∃ mid v, sc.applyChange c = .ok mid ∧ mid.value = .ok v ∧ sc' = mid.note c.time v := by
  unfold appendChange at h
  rw [bind_eq_ok_iff] at h
  obtain ⟨mid, hmid, h⟩ := h
  rw [bind_eq_ok_iff] at h
  obtain ⟨v, hv, h⟩ := h
  exact ⟨mid, v, hmid, hv, (Except.ok.inj h).symm⟩

theorem note_submissions (sc : Score) (time : ℤ) (v : ℚ) :
    (sc.note time v).submissions = sc.submissions := by
  unfold note
  split <;> rfl

theorem note_last (sc : Score) (time : ℤ) (v : ℚ) : (sc.note time v).last = sc.last := by
  unfold note
  split <;> rfl

/-- A change moves only the results: what a reset keeps is as before. -/
theorem appendChange_cleared (h : sc.appendChange c = .ok sc') : sc'.cleared = sc.cleared := by
  obtain ⟨mid, v, hmid, -, rfl⟩ := appendChange_ok h
  obtain ⟨s, released, hget, -, rfl⟩ := applyChange_ok hmid
  have hsubmissions : (sc.submissions.set c.submission (s.apply c)).mapValues
      (fun s => Scored.unscored s.submission) =
        sc.submissions.mapValues fun s => Scored.unscored s.submission := by
    refine Dict.ext_keys ?_ fun key => ?_
    · rw [Dict.keys_mapValues, Dict.keys_mapValues, Dict.keys_set_of_get? hget]
    · rw [Dict.get?_mapValues, Dict.get?_mapValues, Dict.get?_set]
      split
      case isTrue heq =>
        rw [heq, hget]
        rfl
      case isFalse => rfl
  have hnote : ((sc.applied c s released).note c.time v).cleared = (sc.applied c s released).cleared := by
    unfold note
    split <;> rfl
  rw [hnote]
  simp only [cleared, applied, hsubmissions]

theorem changes_of_cleared (hcleared : sc'.cleared = sc.cleared) : sc'.changes = sc.changes := by
  have hchanges := congrArg (fun t : Score => t.changes) hcleared
  exact hchanges

theorem scoreMode_of_cleared (hcleared : sc'.cleared = sc.cleared) :
    sc'.scoreMode = sc.scoreMode := by
  have hscoreMode := congrArg (fun t : Score => t.scoreMode) hcleared
  exact hscoreMode

/-- The score is the one that the mode gives to the results. -/
theorem appendChange_value (h : sc.appendChange c = .ok sc') : sc'.value = .ok sc'.getScore := by
  obtain ⟨mid, v, -, hv, rfl⟩ := appendChange_ok h
  have hvalue : (mid.note c.time v).value = mid.value := by
    unfold note
    split <;> rfl
  rw [hvalue, hv]
  unfold note
  split
  case isTrue => simp [getScore]
  case isFalse heq => rw [not_not.1 heq]

/-! ## Padding -/

theorem Sound.applied (hsound : sc.Sound) (hc : c.NonNeg)
    (hget : sc.submissions.get? c.submission = some s) (released : List ℚ) :
    (sc.applied c s released).Sound := by
  constructor
  · intro key s' hs'
    simp only [Score.applied, Dict.get?_set] at hs'
    split at hs'
    case isTrue =>
      cases hs'
      exact (hsound.nonNeg _ _ hget).apply hc
    case isFalse => exact hsound.nonNeg key s' hs'
  · intro key hkey
    simp only [Score.applied, Dict.get?_set] at hkey ⊢
    by_cases hself : key = c.submission
    · exact ⟨s.apply c, if_pos hself⟩
    · rw [if_neg hself]
      split at hkey
      case isTrue => exact absurd (Option.some.inj hkey).symm hself
      case isFalse => exact hsound.lastStored key hkey

theorem Sound.note (hsound : sc.Sound) (time : ℤ) (v : ℚ) : (sc.note time v).Sound := by
  constructor
  · intro key s hs
    rw [note_submissions] at hs
    exact hsound.nonNeg key s hs
  · intro key hkey
    rw [note_last] at hkey
    rw [note_submissions]
    exact hsound.lastStored key hkey

theorem Sound.appendChange (hsound : sc.Sound) (hc : c.NonNeg) (h : sc.appendChange c = .ok sc') :
    sc'.Sound := by
  obtain ⟨mid, v, hmid, -, rfl⟩ := appendChange_ok h
  obtain ⟨s, released, hget, -, rfl⟩ := applyChange_ok hmid
  exact (hsound.applied hc hget released).note c.time v

theorem sound_cleared (sc : Score) : sc.cleared.Sound := by
  constructor
  · intro key s hs
    simp only [cleared, Dict.get?_mapValues, Option.map_eq_some_iff] at hs
    obtain ⟨s', -, rfl⟩ := hs
    exact Scored.nonNeg_unscored _
  · intro key hkey
    cases hkey

theorem Padded.note (hpad : Padded sc sc') (time : ℤ) (v : ℚ) :
    Padded (sc.note time v) (sc'.note time v) := by
  have hscore : sc'.getScore = sc.getScore := by
    unfold getScore
    rw [hpad.history]
  unfold Score.note
  rw [hscore]
  split
  case isTrue =>
    exact ⟨hpad.kept, hpad.more, hpad.released, hpad.last, by simp [hpad.history], hpad.scoreMode⟩
  case isFalse => exact hpad

theorem Padded.applied (hpad : Padded sc sc') (hsound : sc.Sound) (released : List ℚ) :
    Padded (sc.applied c s released) (sc'.applied c s released) := by
  have hlast : sc'.becomesLast (s.apply c) c = sc.becomesLast (s.apply c) c := by
    unfold becomesLast
    rw [hpad.lastSubmission hsound]
  constructor
  · intro key s' hs'
    simp only [Score.applied, Dict.get?_set] at hs' ⊢
    by_cases hself : key = c.submission
    · rwa [if_pos hself] at hs' ⊢
    · rw [if_neg hself] at hs' ⊢
      exact hpad.kept key s' hs'
  · intro key s' hs'
    simp only [Score.applied, Dict.get?_set] at hs' ⊢
    by_cases hself : key = c.submission
    · rw [if_pos hself] at hs' ⊢
      exact Or.inl hs'
    · rw [if_neg hself] at hs' ⊢
      exact hpad.more key s' hs'
  · rfl
  · simp only [Score.applied, hlast, hpad.last]
  · exact hpad.history
  · exact hpad.scoreMode

/-- A score and a padded one go through a change together. -/
theorem Padded.appendChange (hpad : Padded sc sc') (hsound : sc.Sound) (hc : c.NonNeg)
    (hget : sc.submissions.get? c.submission = some s) :
    (∀ t, sc.appendChange c = .ok t → ∃ t', sc'.appendChange c = .ok t' ∧ Padded t t') ∧
      ∀ t', sc'.appendChange c = .ok t' → ∃ t, sc.appendChange c = .ok t ∧ Padded t t' := by
  have hget' := hpad.kept _ s hget
  have hreleased : sc'.releasedWithout s = sc.releasedWithout s := by
    unfold releasedWithout
    rw [hpad.released]
  unfold Score.appendChange
  rw [applyChange_of_get? hget, applyChange_of_get? hget', hreleased]
  cases sc.releasedWithout s with
  | error e =>
      constructor
      · intro t ht
        cases ht
      · intro t' ht'
        cases ht'
  | ok released =>
      have happlied : Padded (sc.applied c s released) (sc'.applied c s released) :=
        hpad.applied hsound released
      have hvalue := happlied.value_iff (hsound.applied hc hget released)
      simp only [ok_bind]
      constructor
      · intro t ht
        rw [bind_eq_ok_iff] at ht
        obtain ⟨v, hv, ht⟩ := ht
        cases ht
        exact ⟨_, bind_eq_ok_iff.2 ⟨v, (hvalue v).2 hv, rfl⟩, happlied.note c.time v⟩
      · intro t' ht'
        rw [bind_eq_ok_iff] at ht'
        obtain ⟨v, hv, ht'⟩ := ht'
        cases ht'
        exact ⟨_, bind_eq_ok_iff.2 ⟨v, (hvalue v).1 hv, rfl⟩, happlied.note c.time v⟩

/-! ## Many changes -/

theorem appendChanges_append (first second : List (String × Subchange)) :
    sc.appendChanges (first ++ second) =
      sc.appendChanges first >>= fun sc => sc.appendChanges second := by
  unfold appendChanges
  rw [List.foldlM_append]

theorem appendChanges_singleton (change : String × Subchange) :
    sc.appendChanges [change] = sc.appendChange change.2 := by
  simp [appendChanges]

theorem appendChanges_cleared {changes : List (String × Subchange)}
    (h : sc.appendChanges changes = .ok sc') : sc'.cleared = sc.cleared := by
  refine foldlM_ok_induction (P := fun _ t => t.cleared = sc.cleared) h rfl ?_
  intro _ change t t' _ ht hstep
  rw [appendChange_cleared hstep, ht]

theorem get?_of_cleared (hcleared : sc'.cleared = sc.cleared) (key : String) :
    (sc'.submissions.get? key).map Scored.submission =
      (sc.submissions.get? key).map Scored.submission := by
  have hget := congrArg (fun t : Score => (t.submissions.get? key).map Scored.submission) hcleared
  simpa [cleared, Dict.get?_mapValues, Option.map_map, Function.comp_def, Scored.unscored] using hget

theorem keys_of_cleared (hcleared : sc'.cleared = sc.cleared) :
    sc'.submissions.keys = sc.submissions.keys := by
  have hkeys := congrArg (fun t : Score => t.submissions.keys) hcleared
  simpa [cleared] using hkeys

theorem stored_of_cleared (hcleared : sc'.cleared = sc.cleared) {key : String}
    (h : ∃ s, sc.submissions.get? key = some s) : ∃ s, sc'.submissions.get? key = some s := by
  obtain ⟨s, hs⟩ := h
  have hget := get?_of_cleared hcleared key
  rw [hs] at hget
  cases hs' : sc'.submissions.get? key with
  | none =>
      rw [hs'] at hget
      cases hget
  | some s' => exact ⟨s', rfl⟩

theorem Padded.appendChanges {changes : List (String × Subchange)} (hpad : Padded sc sc')
    (hsound : sc.Sound) (hchanges : ∀ change ∈ changes, change.2.NonNeg) {t : Score}
    (h : sc.appendChanges changes = .ok t) :
    ∃ t', sc'.appendChanges changes = .ok t' ∧ Padded t t' := by
  induction changes generalizing sc sc' with
  | nil =>
      cases h
      exact ⟨sc', rfl, hpad⟩
  | cons change rest ih =>
      unfold Score.appendChanges at h
      rw [List.foldlM_cons, bind_eq_ok_iff] at h
      obtain ⟨u, hu, hrest⟩ := h
      obtain ⟨mid, v, hmid, -, -⟩ := appendChange_ok hu
      obtain ⟨s, -, hget, -, -⟩ := applyChange_ok hmid
      have hchange := hchanges change (by simp)
      obtain ⟨u', hu', hpad'⟩ := (hpad.appendChange hsound hchange hget).1 u hu
      obtain ⟨t', ht', hfinal⟩ := ih hpad' (hsound.appendChange hchange hu)
        (fun x hx => hchanges x (by simp [hx])) hrest
      refine ⟨t', ?_, hfinal⟩
      unfold Score.appendChanges
      rw [List.foldlM_cons, bind_eq_ok_iff]
      exact ⟨u', hu', ht'⟩

/-- The other way: changes that reach only submissions of the smaller score. -/
theorem Padded.of_appendChanges {changes : List (String × Subchange)} (hpad : Padded sc sc')
    (hsound : sc.Sound) (hchanges : ∀ change ∈ changes, change.2.NonNeg)
    (hstored : ∀ change ∈ changes, ∃ s, sc.submissions.get? change.2.submission = some s) {t' : Score}
    (h : sc'.appendChanges changes = .ok t') : ∃ t, sc.appendChanges changes = .ok t ∧ Padded t t' := by
  induction changes generalizing sc sc' with
  | nil =>
      cases h
      exact ⟨sc, rfl, hpad⟩
  | cons change rest ih =>
      unfold Score.appendChanges at h
      rw [List.foldlM_cons, bind_eq_ok_iff] at h
      obtain ⟨u', hu', hrest⟩ := h
      obtain ⟨s, hget⟩ := hstored change (by simp)
      have hchange := hchanges change (by simp)
      obtain ⟨u, hu, hpad'⟩ := (hpad.appendChange hsound hchange hget).2 u' hu'
      obtain ⟨t, ht, hfinal⟩ := ih hpad' (hsound.appendChange hchange hu)
        (fun x hx => hchanges x (by simp [hx]))
        (fun x hx => stored_of_cleared (appendChange_cleared hu) (hstored x (by simp [hx]))) hrest
      refine ⟨t, ?_, hfinal⟩
      unfold Score.appendChanges
      rw [List.foldlM_cons, bind_eq_ok_iff]
      exact ⟨u, hu, ht⟩

/-! ## Canonical scores -/

/-- A reset would change nothing. -/
def Canonical (sc : Score) : Prop :=
  sc.resetHistory = .ok sc

theorem cleared_cleared (sc : Score) : sc.cleared.cleared = sc.cleared := by
  simp [cleared, Dict.mapValues, Function.comp_def, Scored.unscored]

theorem resetHistory_cleared (h : sc.resetHistory = .ok sc') : sc'.cleared = sc.cleared := by
  rw [appendChanges_cleared h, cleared_cleared]

theorem canonical_of_resetHistory (h : sc.resetHistory = .ok sc') : sc'.Canonical := by
  have hcleared := resetHistory_cleared h
  unfold Canonical resetHistory
  rw [hcleared, changes_of_cleared hcleared]
  exact h

/-- Every change of a canonical score has its submission in the score. -/
theorem Canonical.stored (hcanonical : sc.Canonical) {change : String × Subchange}
    (hmem : change ∈ sc.changes) : ∃ s, sc.submissions.get? change.2.submission = some s := by
  obtain ⟨before, after, hsplit⟩ := List.append_of_mem hmem
  have hreset : sc.cleared.appendChanges sc.changes = .ok sc := hcanonical
  rw [hsplit, appendChanges_append, bind_eq_ok_iff] at hreset
  obtain ⟨mid, hbefore, hafter⟩ := hreset
  unfold appendChanges at hafter
  rw [List.foldlM_cons, bind_eq_ok_iff] at hafter
  obtain ⟨next, hnext, -⟩ := hafter
  obtain ⟨_, _, hmid, -, -⟩ := appendChange_ok hnext
  obtain ⟨s, -, hget, -, -⟩ := applyChange_ok hmid
  have hcleared : sc.cleared = mid.cleared := by
    rw [appendChanges_cleared hbefore, cleared_cleared]
  exact stored_of_cleared hcleared ⟨s, hget⟩

/-- Two canonical scores with the same submissions, changes and mode have the same results. -/
theorem Canonical.padded (hcanonical : sc.Canonical) (hcanonical' : sc'.Canonical)
    (hchanges : ∀ change ∈ sc.changes, change.2.NonNeg) (hsame : sc'.changes = sc.changes)
    (hmode : sc'.scoreMode = sc.scoreMode)
    (hdata : ∀ key, (sc'.submissions.get? key).map Scored.submission =
      (sc.submissions.get? key).map Scored.submission) : Padded sc sc' := by
  have hget : ∀ key, sc'.cleared.submissions.get? key = sc.cleared.submissions.get? key := by
    intro key
    have hmap := congrArg (Option.map Scored.unscored) (hdata key)
    simpa [cleared, Dict.get?_mapValues, Option.map_map, Function.comp_def] using hmap
  have hpad : Padded sc.cleared sc'.cleared := by
    refine ⟨fun key s hs => ?_, fun key s hs => ?_, rfl, rfl, rfl, hmode⟩
    · rw [hget, hs]
    · exact Or.inl (by rw [← hget, hs])
  obtain ⟨t, ht, hfinal⟩ := hpad.appendChanges (sound_cleared sc) hchanges hcanonical
  have hreset : sc'.cleared.appendChanges sc'.changes = .ok sc' := hcanonical'
  rw [hsame, ht] at hreset
  cases hreset
  exact hfinal

/-! ## What the callbacks keep -/

/-- Another list of changes makes no difference to a change. -/
theorem appendChange_withChanges (changes : List (String × Subchange)) :
    { sc with changes := changes }.appendChange c =
      (sc.appendChange c).map fun t => { t with changes := changes } := by
  unfold appendChange
  cases hget : sc.submissions.get? c.submission with
  | none => simp [applyChange, hget, bind, Except.bind, Except.map]
  | some s =>
      have hget' : ({ sc with changes := changes } : Score).submissions.get? c.submission = some s :=
        hget
      rw [applyChange_of_get? hget, applyChange_of_get? hget']
      have hreleased : ({ sc with changes := changes } : Score).releasedWithout s =
          sc.releasedWithout s := rfl
      rw [hreleased]
      cases sc.releasedWithout s with
      | error e => rfl
      | ok released =>
          simp only [ok_bind]
          have hvalue : (({ sc with changes := changes } : Score).applied c s released).value =
              (sc.applied c s released).value := rfl
          rw [hvalue]
          cases (sc.applied c s released).value with
          | error e => rfl
          | ok v =>
              simp only [ok_bind]
              show Except.ok _ = Except.ok _
              congr 1
              unfold note
              have hscore : (({ sc with changes := changes } : Score).applied c s released).getScore =
                  (sc.applied c s released).getScore := rfl
              rw [hscore]
              split <;> rfl

theorem appendChanges_withChanges (changes list : List (String × Subchange)) :
    { sc with changes := changes }.appendChanges list =
      (sc.appendChanges list).map fun t => { t with changes := changes } := by
  induction list generalizing sc with
  | nil => rfl
  | cons change rest ih =>
      unfold appendChanges at ih ⊢
      rw [List.foldlM_cons, List.foldlM_cons, appendChange_withChanges]
      cases sc.appendChange change.2 with
      | error e => rfl
      | ok t => exact ih

/-- Appending the newest change does what a reset would do. -/
theorem Canonical.append (hcanonical : sc.Canonical) {key : String}
    (h : { sc with changes := sc.changes ++ [(key, c)] }.appendChange c = .ok sc') :
    sc'.Canonical := by
  have hcleared := appendChange_cleared h
  unfold Canonical resetHistory
  rw [hcleared, changes_of_cleared hcleared]
  have hreset : sc.cleared.appendChanges sc.changes = .ok sc := hcanonical
  have hfirst : ({ sc with changes := sc.changes ++ [(key, c)] } : Score).cleared.appendChanges
      sc.changes = .ok { sc with changes := sc.changes ++ [(key, c)] } := by
    have hwith := @appendChanges_withChanges sc.cleared (sc.changes ++ [(key, c)]) sc.changes
    rw [hreset] at hwith
    exact hwith
  rw [appendChanges_append, hfirst, ok_bind, appendChanges_singleton]
  exact h

/-- A submission that no change has reached leaves a canonical score canonical. -/
theorem Canonical.createSubmission (hcanonical : sc.Canonical)
    (hchanges : ∀ change ∈ sc.changes, change.2.NonNeg) {key : String} (s : Submission)
    (hfresh : sc.submissions.get? key = none) : (sc.createSubmission key s).Canonical := by
  have hpad : Padded sc.cleared (sc.createSubmission key s).cleared := by
    refine ⟨fun key' s' hs' => ?_, fun key' s' hs' => ?_, rfl, rfl, rfl, rfl⟩
    · simp only [cleared, Score.createSubmission, Dict.get?_mapValues, Dict.get?_set] at hs' ⊢
      by_cases hself : key' = key
      · rw [hself, hfresh] at hs'
        cases hs'
      · rwa [if_neg hself]
    · simp only [cleared, Score.createSubmission, Dict.get?_mapValues, Option.map_eq_some_iff] at hs'
      obtain ⟨s'', -, rfl⟩ := hs'
      exact Or.inr rfl
  obtain ⟨t, ht, hfinal⟩ := hpad.appendChanges (sound_cleared sc) hchanges hcanonical
  have hcleared : t.cleared = (sc.createSubmission key s).cleared := by
    rw [appendChanges_cleared ht, cleared_cleared]
  -- The replay ends with the same submissions in the same order.
  have hsubmissions : t.submissions = (sc.createSubmission key s).submissions := by
    refine Dict.ext_keys (keys_of_cleared hcleared) fun key' => ?_
    have hdata := get?_of_cleared hcleared key'
    have hset : (sc.createSubmission key s).submissions.get? key' =
        if key' = key then some (Scored.unscored s) else sc.submissions.get? key' :=
      Dict.get?_set _ _ _ _
    cases hold : sc.submissions.get? key' with
    | some s' =>
        have hne : key' ≠ key := by
          rintro rfl
          rw [hfresh] at hold
          cases hold
        rw [hset, if_neg hne, hold, hfinal.kept key' s' hold]
    | none =>
        rw [hset] at hdata ⊢
        split at hdata
        case isTrue hself =>
          rw [if_pos hself]
          obtain ⟨s', hs', hsubmission⟩ := Option.map_eq_some_iff.1 hdata
          rcases hfinal.more key' s' hs' with hkept | hnew
          · rw [hold] at hkept
            cases hkept
          · rw [hs', hnew, hsubmission]
            rfl
        case isFalse hother =>
          rw [if_neg hother, hold]
          rw [hold] at hdata
          exact Option.map_eq_none_iff.1 hdata
  have hsame : t = sc.createSubmission key s := by
    have hchanges' := changes_of_cleared hcleared
    have hmode' := scoreMode_of_cleared hcleared
    obtain ⟨h1, h2, h3, h4, h5, h6⟩ := hfinal
    cases t
    simp only at h3 h4 h5 hsubmissions hchanges' hmode'
    subst h3 h4 h5 hsubmissions hchanges' hmode'
    rfl
  unfold Canonical resetHistory
  rw [← hsame] at ht ⊢
  rw [changes_of_cleared hcleared]
  exact ht

end Score

end Ranking
end ContestManagement
