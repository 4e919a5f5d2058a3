import ContestManagement.Ranking.MirrorRuns

/-!
# What a ranking takes

While the scores mirror the stores, no callback raises for a submission of a stored task or for
a change that the mode of its task can use; so a list with one such entity is stored.
-/

namespace ContestManagement
namespace Ranking

open Lib

namespace Score

variable {sc : Score} {key : String} {c : Subchange}

/-- A submission that is sent again is reset. -/
theorem Canonical.updateSubmission_ok (hcanonical : sc.Canonical) (s : Submission) :
    ∃ sc', sc.updateSubmission key s = .ok sc' := by
  refine resetHistory_ok hcanonical.readable fun change hchange => ?_
  obtain ⟨s', hs'⟩ := hcanonical.stored hchange
  dsimp only
  rw [Dict.get?_set]
  split
  case isTrue => exact ⟨_, rfl⟩
  case isFalse => exact ⟨s', hs'⟩

/-- A change that is sent again is replaced. -/
theorem Canonical.updateSubchange_ok (hcanonical : sc.Canonical)
    (hreadable : Readable sc.scoreMode c)
    (hstored : ∃ s, sc.submissions.get? c.submission = some s) :
    ∃ sc', sc.updateSubchange key c = .ok sc' := by
  have hreplaced : ∀ change ∈ sc.changes.map (fun x => if x.1 = key then (key, c) else x),
      change = (key, c) ∨ change ∈ sc.changes := by
    intro change hchange
    obtain ⟨x, hx, rfl⟩ := List.mem_map.1 hchange
    split
    case isTrue => exact Or.inl rfl
    case isFalse => exact Or.inr hx
  obtain ⟨sc', hsc'⟩ := @resetHistory_ok
    { sc with changes := sc.changes.map fun x => if x.1 = key then (key, c) else x }
    (fun change hchange => by
      rcases hreplaced change hchange with rfl | hchange
      · exact hreadable
      · exact hcanonical.readable change hchange)
    (fun change hchange => by
      rcases hreplaced change hchange with rfl | hchange
      · exact hstored
      · exact hcanonical.stored hchange)
  obtain ⟨s, hs⟩ := stored_of_cleared (resetHistory_cleared hsc') hstored
  refine ⟨sc', ?_⟩
  unfold updateSubchange
  dsimp only
  rw [hsc', ok_bind, logged, hs]

end Score

namespace Scoring

variable {stores : Stores} {scoring : Scoring} {key : String}

/-- A submission of a stored task can be created. -/
theorem createSubmission_ok {s : Submission} {task : Task}
    (htask : (stores .task).get? s.task = some task) :
    ∃ scoring', scoring.createSubmission stores key s = .ok scoring' := by
  unfold createSubmission findOrNew scoreModeOf
  rw [htask]
  cases scoring.get? (s.user, s.task) with
  | none => exact ⟨_, rfl⟩
  | some sc => exact ⟨_, rfl⟩

section Mirrored

variable {subs : String → Option Submission} {chs : String → Option Subchange}
  {mode : String → Option String} (hmirror : Mirror scoring subs chs mode)

include hmirror

theorem updateSubmission_ok {old s : Submission} (hold : subs key = some old)
    (hsame : old.user = s.user ∧ old.task = s.task) {task : Task}
    (htask : (stores .task).get? s.task = some task) :
    ∃ scoring', scoring.updateSubmission stores key old s = .ok scoring' := by
  obtain ⟨sc, m, hget, -, hholds⟩ := hmirror.get?_of_subs hold
  obtain ⟨sc', hsc'⟩ := @Score.Canonical.updateSubmission_ok _ key hholds.canonical s
  rw [hsame.1, hsame.2] at hget
  unfold updateSubmission scoreModeOf find
  rw [if_neg (by simp [hsame]), htask]
  simp only [ok_bind, hget, hsc']
  exact ⟨_, rfl⟩

variable (hstores : ∀ k, (stores .submission).get? k = subs k) {c : Subchange} {s : Submission}
  (hs : subs c.submission = some s) (hreadable : ∀ m, mode s.task = some m → Readable m c)

include hstores hs hreadable

/-- A change to the score of a stored submission that succeeds for canonical scores. -/
theorem modifyAt_ok {f : Score → Except PyError Score}
    (hf : ∀ sc : Score, sc.Canonical → Readable sc.scoreMode c →
      (∃ s, sc.submissions.get? c.submission = some s) → ∃ sc', f sc = .ok sc') :
    ∃ scoring', modifyAt stores scoring c.submission f = .ok scoring' := by
  obtain ⟨sc, m, hget, hm, hholds⟩ := hmirror.get?_of_subs hs
  have hstored : ∃ s', sc.submissions.get? c.submission = some s' := by
    have hdata := hholds.submissions c.submission
    rw [subsOf_self hs] at hdata
    obtain ⟨s', hs', -⟩ := Option.map_eq_some_iff.1 hdata
    exact ⟨s', hs'⟩
  have hreadable' : Readable sc.scoreMode c := by
    rw [hholds.scoreMode]
    exact hreadable m hm
  obtain ⟨sc', hsc'⟩ := hf sc hholds.canonical hreadable' hstored
  unfold modifyAt submissionOf find
  rw [hstores, hs]
  simp only [ok_bind, hget, hsc']
  exact ⟨_, rfl⟩

theorem createSubchange_ok : ∃ scoring', scoring.createSubchange stores key c = .ok scoring' :=
  modifyAt_ok hmirror hstores hs hreadable fun _ hcanonical hreadable' hstored =>
    hcanonical.createSubchange_ok hreadable' hstored

theorem updateSubchange_ok {old : Subchange} (hsame : old.submission = c.submission) :
    ∃ scoring', scoring.updateSubchange stores key old c = .ok scoring' := by
  unfold updateSubchange
  rw [if_neg (not_not.2 hsame)]
  exact modifyAt_ok hmirror hstores hs hreadable fun _ hcanonical hreadable' hstored =>
    hcanonical.updateSubchange_ok hreadable' hstored

end Mirrored

end Scoring

namespace State

variable {r : State} {key : String}

theorem callback_ok {scoring : Except PyError Scoring} (h : ∃ scoring', scoring = .ok scoring') :
    ∃ r', r.callback scoring = .ok r' := by
  obtain ⟨scoring', rfl⟩ := h
  exact ⟨_, rfl⟩

theorem insert_submission_ok {s : Submission} (hmirrors : Mirrors r (modeOf r.stores)) {task : Task}
    (htask : (r.stores .task).get? s.task = some task)
    (hsame : ∀ old, (r.stores .submission).get? key = some old →
      old.user = s.user ∧ old.task = s.task) : ∃ r', r.insert .submission key s = .ok r' := by
  have htask' : ∀ d, ((r.stores.put .submission d) .task).get? s.task = some task := by
    intro d
    rw [Stores.put_of_ne _ _ (by decide), htask]
  unfold insert
  cases hget : (r.stores .submission).get? key with
  | none => exact callback_ok (Scoring.createSubmission_ok
      (htask' ((r.stores .submission).set key s)))
  | some old =>
      exact callback_ok (Scoring.updateSubmission_ok hmirrors hget (hsame old hget)
        (htask' ((r.stores .submission).set key s)))

theorem insert_subchange_ok {c : Subchange} (hmirrors : Mirrors r (modeOf r.stores)) {s : Submission}
    (hs : (r.stores .submission).get? c.submission = some s)
    (hreadable : ∀ m, modeOf r.stores s.task = some m → Readable m c)
    (hsame : ∀ old, (r.stores .subchange).get? key = some old → old.submission = c.submission) :
    ∃ r', r.insert .subchange key c = .ok r' := by
  have hstores : ∀ d k, ((r.stores.put .subchange d) .submission).get? k =
      (r.stores .submission).get? k := by
    intro d k
    rw [Stores.put_of_ne _ _ (by decide)]
  unfold insert
  cases hget : (r.stores .subchange).get? key with
  | none => exact callback_ok (Scoring.createSubchange_ok hmirrors (hstores _) hs hreadable)
  | some old =>
      exact callback_ok
        (Scoring.updateSubchange_ok hmirrors (hstores _) hs hreadable (hsame old hget))

/-- A list with one entity. -/
theorem mergeList_singleton {k : Kind} {data : PyValue} {e : Data k} (hkey : validKey key = true)
    (hvalidated : r.validated k data = .ok e) :
    r.mergeList k (.dict [(key, data)]) = r.insert k key e := by
  have hentity : r.validatedEntity k (key, data) = .ok (key, e) := by
    unfold validatedEntity
    dsimp only
    rw [if_pos hkey, hvalidated]
  have hentities : r.entitiesOf k (.dict [(key, data)]) = .ok (Dict.singleton key e) := by
    show ([(key, data)].mapM (r.validatedEntity k) >>= fun entities =>
      .ok (entities.foldl (fun d item => d.set item.1 item.2) Dict.empty)) = _
    rw [List.mapM_cons, hentity]
    rfl
  unfold mergeList
  rw [hentities]
  show (r.insert k key e >>= fun r => .ok r) = _
  cases r.insert k key e with
  | error raised => rfl
  | ok r' => rfl

end State

end Ranking
end ContestManagement
