import ContestManagement.Ranking.Holds
import ContestManagement.Ranking.Readable
import ContestManagement.Ranking.Stores

/-!
# The results that the changes lead to

A canonical `Score` is what its changes make of submissions without results.  So each submission
has the results of its own changes, `_last` is the latest submission with a score, and the score
is what the mode gives to all the results.
-/

namespace ContestManagement
namespace Ranking

open Lib

/-- What overrides a value, each time it says something: the last word stands, and here it is
always the same. -/
theorem foldl_getD {α β : Type} {f : β → Option α} {values : List β} {a : α}
    (hsame : ∀ x ∈ values, ∀ b, f x = some b → b = a) {x : β} (hmem : x ∈ values) (hx : f x = some a)
    (start : α) : values.foldl (fun b x => (f x).getD b) start = a := by
  induction values using List.reverseRecOn with
  | nil => cases hmem
  | append_singleton values y ih =>
      rw [List.foldl_append, List.foldl_cons, List.foldl_nil]
      cases hy : f y with
      | some b => exact hsame y (by simp) b hy
      | none =>
          have hbefore : x ∈ values := by
            rcases List.mem_append.1 hmem with hbefore | hlast
            · exact hbefore
            · rw [List.mem_singleton.1 hlast, hy] at hx
              cases hx
          exact ih (fun z hz => hsame z (List.mem_append_left _ hz)) hbefore

theorem foldl_getD_none {α β : Type} {f : β → Option α} {values : List β}
    (hnone : ∀ x ∈ values, f x = none) (start : α) :
    values.foldl (fun b x => (f x).getD b) start = start := by
  induction values with
  | nil => rfl
  | cons x rest ih =>
      rw [List.forall_mem_cons] at hnone
      rw [List.foldl_cons, hnone.1]
      exact ih hnone.2

namespace Scored

/-- The results of a submission after some changes. -/
def applyAll (s : Scored) (changes : List (String × Subchange)) : Scored :=
  changes.foldl (fun s change => s.apply change.2) s

theorem applyAll_eq (s : Scored) (changes : List (String × Subchange)) :
    s.applyAll changes = ⟨s.submission, changes.foldl (fun q change => change.2.score.getD q) s.score,
      changes.foldl (fun b change => change.2.token.getD b) s.token,
      changes.foldl (fun texts change => change.2.extra.getD texts) s.extra⟩ := by
  unfold applyAll
  induction changes generalizing s with
  | nil => rfl
  | cons change rest ih => exact ih (s.apply change.2)

/-- The entry of a submission in a row of the table, zero behind the end of its column. -/
def entry (s : Scored) (row : Nat) : ℚ :=
  match s.column with
  | .ok column => column.getD row 0
  | .error _ => 0

end Scored

namespace Score

variable {sc sc' : Score}

theorem applyAll_of_ne {c : String × Subchange} {changes : List (String × Subchange)} {key : String}
    (s : Scored) (hne : c.2.submission ≠ key) :
    s.applyAll ((changes ++ [c]).filter fun change => change.2.submission = key) =
      s.applyAll (changes.filter fun change => change.2.submission = key) := by
  simp [List.filter_append, hne]

theorem applyAll_self {c : String × Subchange} {changes : List (String × Subchange)} (s : Scored) :
    s.applyAll ((changes ++ [c]).filter fun change => change.2.submission = c.2.submission) =
      (s.applyAll (changes.filter fun change => change.2.submission = c.2.submission)).apply c.2 := by
  simp [Scored.applyAll, List.filter_append]

/-- A submission has the results of its own changes. -/
theorem Canonical.results (hcanonical : sc.Canonical) {key : String} {s : Scored}
    (hget : sc.submissions.get? key = some s) :
    s = (Scored.unscored s.submission).applyAll
      (sc.changes.filter fun change => change.2.submission = key) := by
  have hall : ∀ key s, sc.submissions.get? key = some s → s = (Scored.unscored s.submission).applyAll
      (sc.changes.filter fun change => change.2.submission = key) := by
    apply foldlM_ok_induction (P := fun done t => ∀ key s, t.submissions.get? key = some s →
      s = (Scored.unscored s.submission).applyAll
        (done.filter fun change => change.2.submission = key)) hcanonical
    · intro key s hs
      simp only [cleared, Dict.get?_mapValues, Option.map_eq_some_iff] at hs
      obtain ⟨s', -, rfl⟩ := hs
      rfl
    · intro done change t t' _ hdone hstep key s hs
      obtain ⟨mid, v, hmid, -, rfl⟩ := appendChange_ok hstep
      obtain ⟨old, released, hold, -, rfl⟩ := applyChange_ok hmid
      rw [note_submissions] at hs
      simp only [applied, Dict.get?_set] at hs
      split at hs
      case isTrue hself =>
        subst hself
        cases hs
        rw [applyAll_self]
        exact congrArg (fun s : Scored => s.apply change.2) (hdone _ _ hold)
      case isFalse hne =>
        rw [applyAll_of_ne _ (Ne.symm hne)]
        exact hdone key s hs
  exact hall key s hget

/-- The score is the one that the mode gives to the results. -/
theorem Canonical.value_eq (hcanonical : sc.Canonical) (hne : sc.changes ≠ []) :
    sc.value = .ok sc.getScore := by
  have hall : sc.changes ≠ [] → sc.value = .ok sc.getScore := by
    apply foldlM_ok_induction (P := fun done t => done ≠ [] → t.value = .ok t.getScore) hcanonical
    · intro hnil
      exact absurd rfl hnil
    · intro _ change t t' _ _ hstep _
      exact appendChange_value hstep
  exact hall hne

/-! ## The last submission -/

/-- `last` is the latest of the submissions that the changes give a score. -/
structure Latest (data : String → Option Submission) (changes : List (String × Subchange))
    (last : Option String) : Prop where
  unscored : last = none → ∀ change ∈ changes, change.2.score = none
  scored : ∀ key, last = some key →
    (∃ change ∈ changes, change.2.submission = key ∧ change.2.score.isSome = true) ∧
      ∃ s, data key = some s ∧ ∀ change ∈ changes, change.2.score.isSome = true →
        ∀ s', data change.2.submission = some s' → s'.time ≤ s.time

variable {data : String → Option Submission} {done : List (String × Subchange)}
  {change : String × Subchange} {last : Option String}

/-- A change without a score leaves the last submission as it is. -/
theorem Latest.append_unscored (h : Latest data done last) (hnone : change.2.score = none) :
    Latest data (done ++ [change]) last := by
  constructor
  · intro hlast other hother
    rcases List.mem_append.1 hother with hother | hother
    · exact h.unscored hlast other hother
    · rw [List.mem_singleton.1 hother, hnone]
  · intro key hkey
    obtain ⟨⟨scored, hmem, hscored⟩, s, hs, hlater⟩ := h.scored key hkey
    refine ⟨⟨scored, List.mem_append_left _ hmem, hscored⟩, s, hs, fun other hother hsome => ?_⟩
    rcases List.mem_append.1 hother with hother | hother
    · exact hlater other hother hsome
    · rw [List.mem_singleton.1 hother, hnone] at hsome
      cases hsome

/-- A change with a score of a submission after all the others. -/
theorem Latest.append_last (hsome : change.2.score.isSome = true) {s : Submission}
    (hs : data change.2.submission = some s)
    (hlater : ∀ other ∈ done, other.2.score.isSome = true → ∀ s', data other.2.submission = some s' →
      s'.time ≤ s.time) : Latest data (done ++ [change]) (some change.2.submission) := by
  constructor
  · intro hlast
    cases hlast
  · intro key hkey
    cases hkey
    refine ⟨⟨change, by simp, rfl, hsome⟩, s, hs, fun other hother hother' s' hs' => ?_⟩
    rcases List.mem_append.1 hother with hother | hother
    · exact hlater other hother hother' s' hs'
    · rw [List.mem_singleton.1 hother, hs] at hs'
      exact (Option.some.inj hs' ▸ le_refl _)

/-- A change with a score of a submission that does not come after the last one. -/
theorem Latest.append_earlier (h : Latest data done last) {key : String} (hkey : last = some key)
    (hearlier : ∀ s s', data key = some s → data change.2.submission = some s' → s'.time ≤ s.time) :
    Latest data (done ++ [change]) last := by
  constructor
  · intro hlast
    rw [hkey] at hlast
    cases hlast
  · intro key' hkey'
    obtain rfl : key = key' := Option.some.inj (hkey.symm.trans hkey')
    obtain ⟨⟨scored, hmem, hscored⟩, s, hs, hlater⟩ := h.scored key hkey
    refine ⟨⟨scored, List.mem_append_left _ hmem, hscored⟩, s, hs, fun other hother hsome s' hs' => ?_⟩
    rcases List.mem_append.1 hother with hother | hother
    · exact hlater other hother hsome s' hs'
    · rw [List.mem_singleton.1 hother] at hs'
      exact hearlier s s' hs hs'

theorem Latest.appendChange {c : Subchange} {key : String}
    (h : Latest data done sc.last)
    (hdata : ∀ key, (sc.submissions.get? key).map Scored.submission = data key)
    (hstep : sc.appendChange c = .ok sc') : Latest data (done ++ [(key, c)]) sc'.last := by
  obtain ⟨mid, v, hmid, -, rfl⟩ := appendChange_ok hstep
  obtain ⟨s, released, hget, -, rfl⟩ := applyChange_ok hmid
  have hs : data c.submission = some s.submission := by rw [← hdata, hget]; rfl
  rw [note_last]
  show Latest data (done ++ [(key, c)])
    (if sc.becomesLast (s.apply c) c then some c.submission else sc.last)
  cases hscore : c.score with
  | none =>
      rw [becomesLast, hscore, Option.isSome_none, Bool.false_and, if_neg Bool.false_ne_true]
      exact h.append_unscored hscore
  | some q =>
      have hsome : c.score.isSome = true := by rw [hscore]; rfl
      rw [becomesLast, hsome, Bool.true_and]
      cases hlast : sc.last with
      | none =>
          rw [lastSubmission, hlast, Option.bind_none, if_pos rfl]
          refine Latest.append_last hsome hs fun other hother hother' => ?_
          rw [h.unscored hlast other hother] at hother'
          cases hother'
      | some key' =>
          obtain ⟨-, s', hs', hlater⟩ := h.scored key' hlast
          rw [← hdata, Option.map_eq_some_iff] at hs'
          obtain ⟨found, hfound, rfl⟩ := hs'
          have hfound' : sc.lastSubmission = some found := by
            rw [lastSubmission, hlast, Option.bind_some, hfound]
          rw [hfound']
          dsimp only
          split
          case isTrue hlt =>
            refine Latest.append_last hsome hs fun other hother hother' s'' hs'' => ?_
            have htime : found.submission.time < s.submission.time := of_decide_eq_true hlt
            exact (hlater other hother hother' s'' hs'').trans htime.le
          case isFalse hge =>
            rw [← hlast]
            refine h.append_earlier hlast fun s₁ s₂ hs₁ hs₂ => ?_
            rw [← hdata, hfound] at hs₁
            rw [hs] at hs₂
            cases hs₁
            cases hs₂
            have htime : ¬found.submission.time < s.submission.time :=
              fun hlt => hge (decide_eq_true hlt)
            exact not_lt.1 htime

theorem Canonical.latest (hcanonical : sc.Canonical) :
    Latest (fun key => (sc.submissions.get? key).map Scored.submission) sc.changes sc.last := by
  have hall := foldlM_ok_induction (P := fun done t =>
    (∀ key, (t.submissions.get? key).map Scored.submission =
      (sc.submissions.get? key).map Scored.submission) ∧
    Latest (fun key => (sc.submissions.get? key).map Scored.submission) done t.last) hcanonical
  refine (hall ⟨fun key => ?_, ?_⟩ ?_).2
  · exact get?_of_cleared (cleared_cleared sc) key
  · refine ⟨fun _ change hchange => ?_, fun key hkey => ?_⟩
    · cases hchange
    · cases hkey
  · rintro done change t t' _ ⟨hdata, hlatest⟩ hstep
    refine ⟨fun key => ?_, hlatest.appendChange hdata hstep⟩
    rw [get?_of_cleared (appendChange_cleared hstep), hdata]

/-! ## The score in each mode -/

theorem maxDefault_eq_foldl {values : List ℚ} (h : ∀ q ∈ values, 0 ≤ q) :
    maxDefault values = values.foldl max 0 := by
  cases values with
  | nil => rfl
  | cons q rest =>
      rw [List.forall_mem_cons] at h
      rw [List.foldl_cons, max_eq_right h.1]
      rfl

section Modes

variable {results : List Scored} (hcanonical : sc.Canonical) (hne : sc.changes ≠ [])
  (hperm : sc.scoreds.Perm results) (hnonneg : ∀ s ∈ results, 0 ≤ s.score)

include hcanonical hne hperm hnonneg

theorem getScore_max (hmode : sc.scoreMode = "max") :
    sc.getScore = (results.map Scored.score).foldl max 0 := by
  have hvalue := hcanonical.value_eq hne
  rw [value, if_pos hmode, Except.ok.injEq] at hvalue
  have hscores : ∀ q ∈ sc.scoreds.map Scored.score, 0 ≤ q := by
    intro q hq
    obtain ⟨s, hs, rfl⟩ := List.mem_map.1 hq
    exact hnonneg s (hperm.mem_iff.1 hs)
  rw [← hvalue, maxDefault_eq_foldl hscores, foldl_max_perm (hperm.map _)]

theorem getScore_maxTokenedLast (hmode : sc.scoreMode = "max_tokened_last") {s : Scored}
    (hlast : sc.lastSubmission = some s) :
    sc.getScore = max s.score (((results.filter Scored.token).map Scored.score).foldl max 0) := by
  have hvalue := hcanonical.value_eq hne
  rw [value, if_neg (by rw [hmode]; decide), if_neg (by rw [hmode]; decide), if_pos hmode,
    Except.ok.injEq, hlast, Option.map_some, Option.getD_some] at hvalue
  have htokened : sc.released.Perm ((results.filter Scored.token).map Scored.score) :=
    hcanonical.good.released.trans ((hperm.filter _).map _)
  have hreleased : ∀ q ∈ sc.released ++ [0], 0 ≤ q := by
    intro q hq
    rcases List.mem_append.1 hq with hq | hq
    · obtain ⟨s, hs, rfl⟩ := List.mem_map.1 (htokened.mem_iff.1 hq)
      exact hnonneg s (List.mem_of_mem_filter hs)
    · rw [List.mem_singleton.1 hq]
  rw [← hvalue, max_comm, maxDefault_eq_foldl hreleased, foldl_max_concat, foldl_max_perm htokened,
    max_eq_left (le_foldl_max _ _)]

omit hnonneg in
/-- The best entry of each row. -/
theorem getScore_maxSubtask (hmode : sc.scoreMode = "max_subtask") (rows : Nat)
    (hrows : ∀ s ∈ results, ∀ column, s.column = .ok column → column.length ≤ rows)
    (hentries : ∀ s ∈ results, ∀ row, 0 ≤ s.entry row) :
    sc.getScore = ((List.range rows).map fun row =>
      (results.map fun s => s.entry row).foldl max 0).sum := by
  have hvalue := hcanonical.value_eq hne
  rw [value, if_neg (by rw [hmode]; decide), if_pos hmode, bind_eq_ok_iff] at hvalue
  obtain ⟨columns, hread, hsum⟩ := hvalue
  have hlength : (columns.map List.length).foldr max 0 ≤ rows := by
    have hall : ∀ column ∈ columns, column.length ≤ rows := by
      intro column hcolumn
      obtain ⟨s, hs, hs'⟩ := exists_of_mem_mapM hread hcolumn
      exact hrows s (hperm.mem_iff.1 hs) column hs'
    clear hread hsum
    induction columns with
    | nil => exact Nat.zero_le rows
    | cons column rest ih =>
        rw [List.forall_mem_cons] at hall
        exact max_le hall.1 (ih hall.2)
  have hrow : ∀ row, rowMax columns row = (results.map fun s => s.entry row).foldl max 0 := by
    intro row
    have hcolumns : columns.map (fun column => column.getD row 0) =
        sc.scoreds.map fun s => s.entry row :=
      map_of_mapM_eq_ok hread fun s _ column hcolumn => by rw [Scored.entry, hcolumn]
    have hpositive : ∀ q ∈ columns.map (fun column => column.getD row 0), 0 ≤ q := by
      rw [hcolumns]
      intro q hq
      obtain ⟨s, hs, rfl⟩ := List.mem_map.1 hq
      exact hentries s (hperm.mem_iff.1 hs) row
    rw [rowMax, maxDefault_eq_foldl hpositive, hcolumns, foldl_max_perm (hperm.map _)]
  rw [← Except.ok.inj hsum, sum_zipLongest hlength]
  exact congrArg List.sum (List.map_congr_left fun row _ => hrow row)

end Modes

end Score

/-- `get_score` of `ScoringStore`. -/
def Scoring.getScore (scoring : Scoring) (user task : String) : ℚ :=
  match scoring.get? (user, task) with
  | none => 0
  | some sc => sc.getScore

end Ranking
end ContestManagement
