import ContestManagement.Ranking.Replay

/-!
# When a change can be appended

`append_change` raises when the score mode is not one of the three, when a detail cannot be
read as a number in the mode that adds up subtasks, when the submission is not there, and
when the score of a released submission is missing among the released ones.  The last never
happens: the released scores are those of the submissions with a token.

So changes that were appended once can be appended in any order.
-/

namespace ContestManagement
namespace Ranking

open Lib

/-- The three score modes. -/
def KnownMode (mode : String) : Prop :=
  mode = "max" ∨ mode = "max_subtask" ∨ mode = "max_tokened_last"

/-- The texts are finite numbers. -/
def Numbers (texts : List String) : Prop :=
  ∀ text ∈ texts, ∃ q, Decimal.parse text = some q

/-- A change that the mode can use. -/
structure Readable (mode : String) (c : Subchange) : Prop where
  knownMode : KnownMode mode
  numbers : mode = "max_subtask" → ∀ texts, c.extra = some texts → Numbers texts

theorem Scored.column_ok {s : Scored} (h : Numbers s.extra) : ∃ column, s.column = .ok column := by
  unfold Scored.column
  split
  case isTrue => exact ⟨_, rfl⟩
  case isFalse =>
    refine mapM_ok_of_forall fun text htext => ?_
    obtain ⟨q, hq⟩ := h text htext
    exact ⟨q, by rw [Decimal.parse_eq_some_iff.1 hq]⟩

theorem Scored.numbers_of_column {s : Scored} {column : List ℚ} (h : s.column = .ok column) :
    Numbers s.extra := by
  unfold Scored.column at h
  split at h
  case isTrue hempty =>
    rw [hempty]
    intro text htext
    cases htext
  case isFalse =>
    intro text htext
    obtain ⟨q, hq⟩ := exists_ok_of_mapM_eq_ok h htext
    split at hq
    case h_1 q' hread => exact ⟨q', Decimal.parse_eq_some_iff.2 hread⟩
    case h_2 => cases hq
    case h_3 => cases hq

namespace Score

variable {sc sc' : Score} {c : Subchange} {s : Scored}

/-- The scores of the submissions with a token. -/
def tokened (sc : Score) : List ℚ :=
  (sc.scoreds.filter Scored.token).map Scored.score

/-- The released scores are those of the submissions with a token, and the details can be
read where the mode reads them. -/
structure Good (sc : Score) : Prop where
  released : sc.released.Perm sc.tokened
  numbers : sc.scoreMode = "max_subtask" → ∀ s ∈ sc.scoreds, Numbers s.extra

theorem good_cleared (sc : Score) : sc.cleared.Good := by
  have hscored : ∀ s ∈ sc.cleared.scoreds, s = Scored.unscored s.submission := by
    intro s hs
    obtain ⟨key, hkey⟩ := mem_scoreds_iff.1 hs
    simp only [cleared, Dict.get?_mapValues, Option.map_eq_some_iff] at hkey
    obtain ⟨s', -, rfl⟩ := hkey
    rfl
  constructor
  · have hnone : sc.cleared.scoreds.filter Scored.token = [] := by
      rw [List.filter_eq_nil_iff]
      intro s hs
      rw [hscored s hs]
      exact Bool.false_ne_true
    rw [tokened, hnone]
    exact List.Perm.refl _
  · intro _ s hs
    rw [hscored s hs]
    intro text htext
    cases htext

/-- The submissions before and after a change differ in one. -/
theorem scoreds_applied (hget : sc.submissions.get? c.submission = some s) (released : List ℚ) :
    ∃ others, sc.scoreds.Perm (s :: others) ∧
      (sc.applied c s released).scoreds.Perm (s.apply c :: others) := by
  obtain ⟨before, after, hitems, hset⟩ := Dict.items_set_of_get? hget (s.apply c)
  refine ⟨before.map Prod.snd ++ after.map Prod.snd, ?_, ?_⟩
  · unfold scoreds
    rw [hitems, List.map_append, List.map_cons]
    exact List.perm_middle
  · unfold scoreds
    show ((sc.submissions.set c.submission (s.apply c)).items.map Prod.snd).Perm _
    rw [hset, List.map_append, List.map_cons]
    exact List.perm_middle

theorem Good.releasedWithout (hgood : sc.Good)
    (hget : sc.submissions.get? c.submission = some s) :
    ∃ released, sc.releasedWithout s = .ok released ∧
      (sc.applied c s released).released.Perm (sc.applied c s released).tokened := by
  obtain ⟨others, hbefore, -⟩ := scoreds_applied hget (c := c) []
  have htokened : sc.tokened.Perm (((s :: others).filter Scored.token).map Scored.score) :=
    (hbefore.filter _).map _
  -- What is left of the released scores is that of the other submissions.
  obtain ⟨released, hreleased, hothers⟩ : ∃ released, sc.releasedWithout s = .ok released ∧
      released.Perm ((others.filter Scored.token).map Scored.score) := by
    unfold Score.releasedWithout
    cases htoken : s.token with
    | false =>
        refine ⟨sc.released, rfl, hgood.released.trans ?_⟩
        rwa [List.filter_cons_of_neg (by simp [htoken])] at htokened
    | true =>
        rw [List.filter_cons_of_pos (by simp [htoken]), List.map_cons] at htokened
        have hperm := hgood.released.trans htokened
        have hmem : s.score ∈ sc.released := hperm.mem_iff.2 List.mem_cons_self
        refine ⟨sc.released.erase s.score, ?_, ?_⟩
        · simp [unrelease, hmem]
        · exact (List.perm_cons_erase hmem).symm.trans hperm |>.cons_inv
  refine ⟨released, hreleased, ?_⟩
  obtain ⟨others', hbefore', hafter⟩ := scoreds_applied hget (c := c) released
  have hsame : others'.Perm others := (hbefore'.symm.trans hbefore).cons_inv
  have hgoal : (sc.applied c s released).tokened.Perm
      (((s.apply c :: others).filter Scored.token).map Scored.score) :=
    (((hafter.trans (hsame.cons _)).filter _).map _)
  refine List.Perm.trans ?_ hgoal.symm
  show (if (s.apply c).token then released ++ [(s.apply c).score] else released).Perm _
  cases htoken : (s.apply c).token with
  | false =>
      rw [List.filter_cons_of_neg (by simp [htoken])]
      exact hothers
  | true =>
      rw [List.filter_cons_of_pos (by simp [htoken]), List.map_cons]
      exact (List.perm_append_singleton _ _).trans (hothers.cons _)

theorem Good.value_ok (hgood : sc.Good) (hmode : KnownMode sc.scoreMode) : ∃ v, sc.value = .ok v := by
  unfold value
  rcases hmode with hmode | hmode | hmode
  · exact ⟨_, by rw [if_pos hmode]⟩
  · obtain ⟨columns, hcolumns⟩ := mapM_ok_of_forall (f := Scored.column)
      fun s hs => Scored.column_ok (hgood.numbers hmode s hs)
    refine ⟨((zipLongest columns).map maxDefault).sum, ?_⟩
    rw [if_neg (by rw [hmode]; decide), if_pos hmode, hcolumns]
    rfl
  · exact ⟨_, by rw [if_neg (by rw [hmode]; decide), if_neg (by rw [hmode]; decide), if_pos hmode]⟩

/-- A readable change of a stored submission can be appended. -/
theorem Good.appendChange (hgood : sc.Good) (hreadable : Readable sc.scoreMode c)
    (hget : sc.submissions.get? c.submission = some s) :
    ∃ sc', sc.appendChange c = .ok sc' ∧ sc'.Good := by
  obtain ⟨released, hreleased, hperm⟩ := hgood.releasedWithout hget
  have happlied : (sc.applied c s released).Good := by
    refine ⟨hperm, fun hmode s' hs' => ?_⟩
    obtain ⟨others, hbefore, hafter⟩ := scoreds_applied hget (c := c) released
    rcases List.mem_cons.1 (hafter.mem_iff.1 hs') with rfl | hs'
    · show Numbers (c.extra.getD s.extra)
      cases hextra : c.extra with
      | none =>
          refine hgood.numbers hmode s (hbefore.mem_iff.2 List.mem_cons_self)
      | some texts => exact hreadable.numbers hmode texts hextra
    · exact hgood.numbers hmode s' (hbefore.mem_iff.2 (List.mem_cons_of_mem _ hs'))
  obtain ⟨v, hv⟩ := happlied.value_ok hreadable.knownMode
  refine ⟨(sc.applied c s released).note c.time v, ?_, ?_⟩
  · unfold Score.appendChange
    rw [applyChange_of_get? hget, hreleased]
    simp only [ok_bind, hv]
    rfl
  · unfold note
    split
    case isTrue => exact ⟨happlied.released, happlied.numbers⟩
    case isFalse => exact happlied

/-- A change that was appended is readable. -/
theorem readable_of_appendChange (h : sc.appendChange c = .ok sc') : Readable sc.scoreMode c := by
  obtain ⟨mid, v, hmid, hv, -⟩ := appendChange_ok h
  obtain ⟨s, released, hget, -, rfl⟩ := applyChange_ok hmid
  unfold value at hv
  constructor
  · split at hv
    case isTrue hmode => exact Or.inl hmode
    split at hv
    case isTrue hmode => exact Or.inr (Or.inl hmode)
    split at hv
    case isTrue hmode => exact Or.inr (Or.inr hmode)
    case isFalse => cases hv
  · intro hmode texts htexts
    have hmode' : (sc.applied c s released).scoreMode = "max_subtask" := hmode
    rw [if_neg (by rw [hmode']; decide), if_pos hmode', bind_eq_ok_iff] at hv
    obtain ⟨columns, hcolumns, -⟩ := hv
    have hmem : s.apply c ∈ (sc.applied c s released).scoreds := by
      obtain ⟨others, -, hafter⟩ := scoreds_applied hget (c := c) released
      exact hafter.mem_iff.2 List.mem_cons_self
    obtain ⟨column, hcolumn⟩ := exists_ok_of_mapM_eq_ok hcolumns hmem
    have hnumbers := Scored.numbers_of_column hcolumn
    rwa [show (s.apply c).extra = texts by simp [Scored.apply, htexts]] at hnumbers

/-- Readable changes of stored submissions can all be appended. -/
theorem Good.appendChanges {changes : List (String × Subchange)} (hgood : sc.Good)
    (hreadable : ∀ change ∈ changes, Readable sc.scoreMode change.2)
    (hstored : ∀ change ∈ changes, ∃ s, sc.submissions.get? change.2.submission = some s) :
    ∃ sc', sc.appendChanges changes = .ok sc' := by
  induction changes generalizing sc with
  | nil => exact ⟨sc, rfl⟩
  | cons change rest ih =>
      obtain ⟨s, hs⟩ := hstored change (by simp)
      obtain ⟨next, hnext, hgood'⟩ := hgood.appendChange (hreadable change (by simp)) hs
      have hcleared := appendChange_cleared hnext
      obtain ⟨sc', hsc'⟩ := ih hgood'
        (fun x hx => by
          rw [scoreMode_of_cleared hcleared]
          exact hreadable x (by simp [hx]))
        (fun x hx => stored_of_cleared hcleared (hstored x (by simp [hx])))
      refine ⟨sc', ?_⟩
      unfold Score.appendChanges
      rw [List.foldlM_cons, hnext]
      exact hsc'

theorem Canonical.readable (hcanonical : sc.Canonical) :
    ∀ change ∈ sc.changes, Readable sc.scoreMode change.2 := by
  have hreadable : sc.scoreMode = sc.scoreMode ∧
      ∀ change ∈ sc.changes, Readable sc.scoreMode change.2 := by
    refine foldlM_ok_induction (P := fun done t => t.scoreMode = sc.scoreMode ∧
      ∀ change ∈ done, Readable sc.scoreMode change.2) hcanonical ⟨rfl, by simp⟩ ?_
    rintro done change t t' - ⟨hmode, hdone⟩ hstep
    refine ⟨(scoreMode_of_cleared (appendChange_cleared hstep)).trans hmode, fun x hx => ?_⟩
    rcases List.mem_append.1 hx with hx | hx
    · exact hdone x hx
    · rw [List.mem_singleton] at hx
      subst hx
      rw [← hmode]
      exact readable_of_appendChange hstep
  exact hreadable.2

/-- Changes that were appended leave a good score good. -/
theorem Good.of_appendChanges {changes : List (String × Subchange)} (hgood : sc.Good)
    (h : sc.appendChanges changes = .ok sc') : sc'.Good := by
  refine foldlM_ok_induction (P := fun _ t => t.Good) h hgood ?_
  rintro done change t t' - hgood hstep
  obtain ⟨_, _, hmid, -, -⟩ := appendChange_ok hstep
  obtain ⟨s, -, hget, -, -⟩ := applyChange_ok hmid
  obtain ⟨t'', ht'', hgood'⟩ := hgood.appendChange (readable_of_appendChange hstep) hget
  rw [hstep] at ht''
  cases ht''
  exact hgood'

theorem Canonical.good (hcanonical : sc.Canonical) : sc.Good :=
  (good_cleared sc).of_appendChanges hcanonical

/-- A reset of readable changes of stored submissions ends. -/
theorem resetHistory_ok (hreadable : ∀ change ∈ sc.changes, Readable sc.scoreMode change.2)
    (hstored : ∀ change ∈ sc.changes, ∃ s, sc.submissions.get? change.2.submission = some s) :
    ∃ sc', sc.resetHistory = .ok sc' :=
  (good_cleared sc).appendChanges hreadable fun change hchange => by
    obtain ⟨s, hs⟩ := hstored change hchange
    exact ⟨_, by rw [cleared, Dict.get?_mapValues, hs]; rfl⟩

/-- A new readable change of a stored submission can be created. -/
theorem Canonical.createSubchange_ok (hcanonical : sc.Canonical) {key : String}
    (hreadable : Readable sc.scoreMode c)
    (hstored : ∃ s, sc.submissions.get? c.submission = some s) :
    ∃ sc', sc.createSubchange key c = .ok sc' := by
  obtain ⟨s, hs⟩ := hstored
  unfold createSubchange
  split
  case isTrue =>
    obtain ⟨sc', hsc', -⟩ := hcanonical.good.appendChange hreadable hs
    rw [appendChange_withChanges, hsc']
    exact ⟨_, rfl⟩
  case isFalse =>
    have hmem : ∀ changes : List (String × Subchange), ∀ x ∈ insertChange (key, c) changes,
        x = (key, c) ∨ x ∈ changes := by
      intro changes
      induction changes with
      | nil =>
          intro x hx
          cases hx
      | cons first rest ih =>
          intro x hx
          unfold insertChange at hx
          split at hx
          case isTrue =>
            rcases List.mem_cons.1 hx with rfl | hx
            · exact Or.inl rfl
            · exact Or.inr hx
          case isFalse =>
            rcases List.mem_cons.1 hx with rfl | hx
            · exact Or.inr List.mem_cons_self
            · exact (ih x hx).imp id (List.mem_cons_of_mem _)
    obtain ⟨sc', hsc'⟩ := @resetHistory_ok { sc with changes := insertChange (key, c) sc.changes }
      (fun x hx => by
        rcases hmem _ x hx with rfl | hx
        · exact hreadable
        · exact hcanonical.readable x hx)
      (fun x hx => by
        rcases hmem _ x hx with rfl | hx
        · exact ⟨s, hs⟩
        · exact hcanonical.stored hx)
    have hget := stored_of_cleared (resetHistory_cleared hsc') ⟨s, hs⟩
    obtain ⟨s', hs'⟩ := hget
    refine ⟨sc', ?_⟩
    rw [hsc', ok_bind, logged, hs']

end Score

end Ranking
end ContestManagement
