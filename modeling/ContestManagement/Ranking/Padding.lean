import Mathlib.Algebra.Order.Field.Rat
import Mathlib.Data.List.GetD
import ContestManagement.Lib.Maxima
import ContestManagement.Ranking.Score

/-!
# Submissions that no change has reached

A submission that no change has reached has score zero.  As long as no score is negative it
makes no difference to the score of the task, in any of the three modes: it is one more zero
under each maximum.  So a `Score` and one with more such submissions go through the same
changes with the same history.

`Padded sc sc'` says that `sc'` holds the submissions of `sc` and besides them only such
submissions.  The order in which two `Score`s hold their submissions does not matter either:
two that are padded both ways have the same submissions.
-/

namespace ContestManagement
namespace Ranking

open Lib

/-! ## Maxima -/

theorem le_maxDefault {values : List ℚ} {q : ℚ} (h : q ∈ values) : q ≤ maxDefault values := by
  cases values with
  | nil => cases h
  | cons x rest =>
      obtain ⟨hbase, hall, -⟩ := foldl_max_spec rest x
      rcases List.mem_cons.1 h with rfl | h
      · exact hbase
      · exact hall q h

theorem maxDefault_mem {values : List ℚ} (h : values ≠ []) : maxDefault values ∈ values := by
  cases values with
  | nil => exact absurd rfl h
  | cons x rest =>
      obtain ⟨-, -, hmem⟩ := foldl_max_spec rest x
      rcases hmem with heq | hmem
      · exact List.mem_cons.2 (Or.inl heq)
      · exact List.mem_cons_of_mem x hmem

theorem maxDefault_nonneg {values : List ℚ} (h : ∀ q ∈ values, 0 ≤ q) : 0 ≤ maxDefault values := by
  by_cases hempty : values = []
  · rw [hempty]
    exact le_refl 0
  · exact h _ (maxDefault_mem hempty)

/-- Only the positive values count. -/
theorem maxDefault_le_of_positive {values others : List ℚ} (hothers : ∀ q ∈ others, 0 ≤ q)
    (h : ∀ q ∈ values, 0 < q → q ∈ others) : maxDefault values ≤ maxDefault others := by
  by_cases hempty : values = []
  · rw [hempty]
    exact maxDefault_nonneg hothers
  · rcases lt_or_ge 0 (maxDefault values) with hpos | hneg
    · exact le_maxDefault (h _ (maxDefault_mem hempty) hpos)
    · exact hneg.trans (maxDefault_nonneg hothers)

theorem maxDefault_congr {values others : List ℚ} (hvalues : ∀ q ∈ values, 0 ≤ q)
    (hothers : ∀ q ∈ others, 0 ≤ q) (h : ∀ q, 0 < q → (q ∈ values ↔ q ∈ others)) :
    maxDefault values = maxDefault others :=
  le_antisymm (maxDefault_le_of_positive hothers fun q hq hpos => (h q hpos).1 hq)
    (maxDefault_le_of_positive hvalues fun q hq hpos => (h q hpos).2 hq)

/-! ## Rows of columns -/

/-- The largest value of a row. -/
def rowMax (columns : List (List ℚ)) (row : Nat) : ℚ :=
  maxDefault (columns.map fun column => column.getD row 0)

theorem length_le_of_mem {columns : List (List ℚ)} {column : List ℚ} (h : column ∈ columns) :
    column.length ≤ (columns.map List.length).foldr max 0 := by
  induction columns with
  | nil => cases h
  | cons first rest ih =>
      rw [List.map_cons, List.foldr_cons]
      rcases List.mem_cons.1 h with rfl | h
      · exact le_max_left _ _
      · exact (ih h).trans (le_max_right _ _)

theorem rowMax_of_le {columns : List (List ℚ)} {row : Nat}
    (h : (columns.map List.length).foldr max 0 ≤ row) : rowMax columns row = 0 := by
  unfold rowMax
  have hzero : ∀ q ∈ columns.map (fun column => column.getD row 0), q = 0 := by
    intro q hq
    obtain ⟨column, hcolumn, rfl⟩ := List.mem_map.1 hq
    have hlength : column.length ≤ row := (length_le_of_mem hcolumn).trans h
    rw [List.getD_eq_default _ _ hlength]
  by_cases hempty : columns.map (fun column => column.getD row 0) = []
  · rw [hempty]
    rfl
  · exact hzero _ (maxDefault_mem hempty)

/-- Rows behind the longest column add nothing. -/
theorem sum_zipLongest {columns : List (List ℚ)} {rows : Nat}
    (h : (columns.map List.length).foldr max 0 ≤ rows) :
    ((zipLongest columns).map maxDefault).sum = ((List.range rows).map (rowMax columns)).sum := by
  unfold zipLongest
  rw [List.map_map]
  obtain ⟨more, rfl⟩ := Nat.exists_eq_add_of_le h
  rw [List.range_add, List.map_append, List.sum_append, List.map_map]
  have hmore : ((List.range more).map
      (rowMax columns ∘ fun row => (columns.map List.length).foldr max 0 + row)).sum = 0 := by
    refine List.sum_eq_zero fun q hq => ?_
    obtain ⟨row, -, rfl⟩ := List.mem_map.1 hq
    exact rowMax_of_le (Nat.le_add_right _ _)
  rw [hmore, add_zero]
  rfl

/-- The sum of the row maxima looks only at the positive entries of each row. -/
theorem sum_zipLongest_congr {columns others : List (List ℚ)}
    (hcolumns : ∀ column ∈ columns, ∀ q ∈ column, 0 ≤ q)
    (hothers : ∀ column ∈ others, ∀ q ∈ column, 0 ≤ q)
    (h : ∀ row q, 0 < q → ((∃ column ∈ columns, column.getD row 0 = q) ↔
      ∃ column ∈ others, column.getD row 0 = q)) :
    ((zipLongest columns).map maxDefault).sum = ((zipLongest others).map maxDefault).sum := by
  have hnonneg : ∀ (table : List (List ℚ)) row, (∀ column ∈ table, ∀ q ∈ column, 0 ≤ q) →
      ∀ q ∈ table.map (fun column => column.getD row 0), 0 ≤ q := by
    intro table row htable q hq
    obtain ⟨column, hcolumn, rfl⟩ := List.mem_map.1 hq
    rcases Nat.lt_or_ge row column.length with hlt | hge
    · rw [List.getD_eq_getElem _ _ hlt]
      exact htable column hcolumn _ (List.getElem_mem hlt)
    · rw [List.getD_eq_default _ _ hge]
  rw [sum_zipLongest (le_max_left _ ((others.map List.length).foldr max 0)),
    sum_zipLongest (le_max_right ((columns.map List.length).foldr max 0) _)]
  refine congrArg List.sum (List.map_congr_left fun row _ => ?_)
  refine maxDefault_congr (hnonneg columns row hcolumns) (hnonneg others row hothers) ?_
  intro q hpos
  simpa [List.mem_map] using h row q hpos

/-! ## Scores without negative results -/

/-- No negative score, and no detail that is read as a negative number or as not a number. -/
def Subchange.NonNeg (c : Subchange) : Prop :=
  (∀ q, c.score = some q → 0 ≤ q) ∧
    ∀ texts, c.extra = some texts → ∀ text ∈ texts, ∀ x, Decimal.read text = some x → x.NonNeg

namespace Scored

def NonNeg (s : Scored) : Prop :=
  0 ≤ s.score ∧ ∀ text ∈ s.extra, ∀ x, Decimal.read text = some x → x.NonNeg

theorem nonNeg_unscored (s : Submission) : (unscored s).NonNeg := by
  simp [NonNeg, unscored]

theorem NonNeg.apply {s : Scored} (hs : s.NonNeg) {c : Subchange} (hc : c.NonNeg) :
    (s.apply c).NonNeg := by
  constructor
  · show 0 ≤ c.score.getD s.score
    cases hscore : c.score with
    | none => exact hs.1
    | some q => exact hc.1 q hscore
  · show ∀ text ∈ c.extra.getD s.extra, _
    cases hextra : c.extra with
    | none => exact hs.2
    | some texts => exact hc.2 texts hextra

theorem column_unscored (s : Submission) : (unscored s).column = .ok [0] := by
  simp [column, unscored]

theorem NonNeg.column {s : Scored} (hs : s.NonNeg) {column : List ℚ} (h : s.column = .ok column) :
    ∀ q ∈ column, 0 ≤ q := by
  unfold Scored.column at h
  split at h
  case isTrue =>
    cases h
    intro q hq
    rw [List.mem_singleton] at hq
    exact hq ▸ hs.1
  case isFalse =>
    intro q hq
    obtain ⟨text, htext, hparse⟩ := exists_of_mem_mapM h hq
    split at hparse
    case h_1 q' hq' =>
      cases hparse
      exact hs.2 text htext _ hq'
    case h_2 => cases hparse
    case h_3 => cases hparse

end Scored

namespace Score

/-- No result is negative, and `_last` is one of the submissions. -/
structure Sound (sc : Score) : Prop where
  nonNeg : ∀ key s, sc.submissions.get? key = some s → s.NonNeg
  lastStored : ∀ key, sc.last = some key → ∃ s, sc.submissions.get? key = some s

/-- The second score has the submissions of the first, and besides them only submissions
that no change has reached; all that the changes led to is the same. -/
structure Padded (sc sc' : Score) : Prop where
  kept : ∀ key s, sc.submissions.get? key = some s → sc'.submissions.get? key = some s
  more : ∀ key s, sc'.submissions.get? key = some s →
    sc.submissions.get? key = some s ∨ s = Scored.unscored s.submission
  released : sc'.released = sc.released
  last : sc'.last = sc.last
  history : sc'.history = sc.history
  scoreMode : sc'.scoreMode = sc.scoreMode

theorem mem_scoreds_iff {sc : Score} {s : Scored} :
    s ∈ sc.scoreds ↔ ∃ key, sc.submissions.get? key = some s := by
  unfold scoreds
  rw [List.mem_map]
  constructor
  · rintro ⟨⟨key, s'⟩, hmem, rfl⟩
    exact ⟨key, Dict.mem_items_iff.1 hmem⟩
  · rintro ⟨key, hkey⟩
    exact ⟨(key, s), Dict.mem_items_iff.2 hkey, rfl⟩

variable {sc sc' : Score}

theorem Padded.sound (hpad : Padded sc sc') (hsound : sc.Sound) : sc'.Sound := by
  constructor
  · intro key s hs
    rcases hpad.more key s hs with hold | hnew
    · exact hsound.nonNeg key s hold
    · rw [hnew]
      exact Scored.nonNeg_unscored _
  · intro key hkey
    obtain ⟨s, hs⟩ := hsound.lastStored key (hpad.last ▸ hkey)
    exact ⟨s, hpad.kept key s hs⟩

theorem Padded.lastSubmission (hpad : Padded sc sc') (hsound : sc.Sound) :
    sc'.lastSubmission = sc.lastSubmission := by
  unfold Score.lastSubmission
  rw [hpad.last]
  cases hlast : sc.last with
  | none => rfl
  | some key =>
      obtain ⟨s, hs⟩ := hsound.lastStored key hlast
      rw [Option.bind_some, Option.bind_some, hs, hpad.kept key s hs]

theorem Padded.mem_scoreds (hpad : Padded sc sc') {s : Scored} (hs : s ∈ sc.scoreds) :
    s ∈ sc'.scoreds := by
  obtain ⟨key, hkey⟩ := mem_scoreds_iff.1 hs
  exact mem_scoreds_iff.2 ⟨key, hpad.kept key s hkey⟩

theorem Padded.of_mem_scoreds (hpad : Padded sc sc') {s : Scored} (hs : s ∈ sc'.scoreds) :
    s ∈ sc.scoreds ∨ s = Scored.unscored s.submission := by
  obtain ⟨key, hkey⟩ := mem_scoreds_iff.1 hs
  rcases hpad.more key s hkey with hold | hnew
  · exact Or.inl (mem_scoreds_iff.2 ⟨key, hold⟩)
  · exact Or.inr hnew

theorem Sound.of_mem_scoreds (hsound : sc.Sound) {s : Scored} (hs : s ∈ sc.scoreds) : s.NonNeg := by
  obtain ⟨key, hkey⟩ := mem_scoreds_iff.1 hs
  exact hsound.nonNeg key s hkey

theorem Padded.maxDefault_scores (hpad : Padded sc sc') (hsound : sc.Sound) :
    maxDefault (sc'.scoreds.map Scored.score) = maxDefault (sc.scoreds.map Scored.score) := by
  have hsound' := hpad.sound hsound
  refine maxDefault_congr ?_ ?_ ?_
  · intro q hq
    obtain ⟨s, hs, rfl⟩ := List.mem_map.1 hq
    exact (hsound'.of_mem_scoreds hs).1
  · intro q hq
    obtain ⟨s, hs, rfl⟩ := List.mem_map.1 hq
    exact (hsound.of_mem_scoreds hs).1
  · intro q hpos
    rw [List.mem_map, List.mem_map]
    constructor
    · rintro ⟨s, hs, rfl⟩
      rcases hpad.of_mem_scoreds hs with hold | hnew
      · exact ⟨s, hold, rfl⟩
      · rw [hnew] at hpos
        exact absurd hpos (lt_irrefl 0)
    · rintro ⟨s, hs, rfl⟩
      exact ⟨s, hpad.mem_scoreds hs, rfl⟩

/-- The columns of the two scores are read or not read together, and have one sum. -/
theorem Padded.columns (hpad : Padded sc sc') (hsound : sc.Sound) :
    (∀ columns', sc'.scoreds.mapM Scored.column = .ok columns' →
      ∃ columns, sc.scoreds.mapM Scored.column = .ok columns) ∧
    (∀ columns, sc.scoreds.mapM Scored.column = .ok columns →
      ∃ columns', sc'.scoreds.mapM Scored.column = .ok columns' ∧
        ((zipLongest columns').map maxDefault).sum = ((zipLongest columns).map maxDefault).sum) := by
  have hsound' := hpad.sound hsound
  refine ⟨fun columns' h' => mapM_ok_of_forall fun s hs =>
    exists_ok_of_mapM_eq_ok h' (hpad.mem_scoreds hs), fun columns h => ?_⟩
  obtain ⟨columns', h'⟩ : ∃ columns', sc'.scoreds.mapM Scored.column = .ok columns' := by
    refine mapM_ok_of_forall fun s hs => ?_
    rcases hpad.of_mem_scoreds hs with hold | hnew
    · exact exists_ok_of_mapM_eq_ok h hold
    · rw [hnew]
      exact ⟨[0], Scored.column_unscored _⟩
  have hread : ∀ {t : Score} {table : List (List ℚ)}, t.scoreds.mapM Scored.column = .ok table →
      ∀ column, column ∈ table ↔ ∃ s ∈ t.scoreds, s.column = .ok column := by
    intro t table ht column
    constructor
    · exact fun hmem => exists_of_mem_mapM ht hmem
    · rintro ⟨s, hs, hcolumn⟩
      exact mem_of_mapM_eq_ok ht hs hcolumn
  refine ⟨columns', h', sum_zipLongest_congr ?_ ?_ ?_⟩
  · intro column hmem
    obtain ⟨s, hs, hcolumn⟩ := (hread h' column).1 hmem
    exact (hsound'.of_mem_scoreds hs).column hcolumn
  · intro column hmem
    obtain ⟨s, hs, hcolumn⟩ := (hread h column).1 hmem
    exact (hsound.of_mem_scoreds hs).column hcolumn
  · intro row q hpos
    constructor
    · rintro ⟨column, hmem, hq⟩
      obtain ⟨s, hs, hcolumn⟩ := (hread h' column).1 hmem
      rcases hpad.of_mem_scoreds hs with hold | hnew
      · exact ⟨column, (hread h column).2 ⟨s, hold, hcolumn⟩, hq⟩
      · -- A submission that no change has reached has only zeros.
        rw [hnew, Scored.column_unscored] at hcolumn
        cases hcolumn
        have hzero : ([0] : List ℚ).getD row 0 = 0 := by cases row <;> rfl
        rw [hzero] at hq
        exact absurd hq (ne_of_lt hpos)
    · rintro ⟨column, hmem, hq⟩
      obtain ⟨s, hs, hcolumn⟩ := (hread h column).1 hmem
      exact ⟨column, (hread h' column).2 ⟨s, hpad.mem_scoreds hs, hcolumn⟩, hq⟩

theorem Padded.value_iff (hpad : Padded sc sc') (hsound : sc.Sound) (v : ℚ) :
    sc'.value = .ok v ↔ sc.value = .ok v := by
  have hmax := hpad.maxDefault_scores hsound
  have hlast := hpad.lastSubmission hsound
  obtain ⟨hback, hforth⟩ := hpad.columns hsound
  unfold value
  rw [hpad.scoreMode, hpad.released, hmax, hlast]
  split
  case isTrue => rfl
  split
  case isTrue =>
    rw [bind_eq_ok_iff, bind_eq_ok_iff]
    constructor
    · rintro ⟨columns', h', hv⟩
      obtain ⟨columns, h⟩ := hback columns' h'
      obtain ⟨columns'', h'', hsum⟩ := hforth columns h
      rw [h'] at h''
      cases h''
      rw [hsum] at hv
      exact ⟨columns, h, hv⟩
    · rintro ⟨columns, h, hv⟩
      obtain ⟨columns', h', hsum⟩ := hforth columns h
      rw [← hsum] at hv
      exact ⟨columns', h', hv⟩
  case isFalse => rfl

end Score

end Ranking
end ContestManagement
