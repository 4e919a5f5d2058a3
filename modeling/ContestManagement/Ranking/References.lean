import ContestManagement.Ranking.Atomicity

/-!
# References and deletions, whatever is raised

As long as the callbacks can read what is stored, every operation ends or is refused before its first
change, so that every reference resolves in every state, and a deletion takes away the entity and all
that depends on it.

A score mode that no callback knows breaks both: a deletion then raises half-way, and what it has not
come to yet stays and refers to entities that are gone.
-/

namespace ContestManagement
namespace Ranking

open Lib

namespace State

variable {r r' : State} {k : Kind} {key : String}

/-- A deletion of a stored entity ends, and takes away what depends on it. -/
theorem tryDelete_done (hintegral : Integral r.stores) (hwired : r.ScoresWired)
    (hhas : r.stores.has k key = true) :
    ∃ r', r.tryDelete k key = .done r' ∧ DeletesDependents r.stores (k, key) r'.stores := by
  obtain ⟨r', hok, -⟩ := cascade_wired k.level hwired hhas
  refine ⟨r', ?_, delete_deletesDependents hintegral hok⟩
  rw [← outcome_tryCascade, Attempt.outcome_eq_ok_iff] at hok
  exact hok

theorem tryDelete_refused (hhas : r.stores.has k key = false) :
    r.tryDelete k key = .fail r (.invalidKey "Key not in store.") := by
  have hnone : (r.stores k).get? key = none := by simpa [Stores.has] using hhas
  rw [tryDelete, tryCascade, hnone]

theorem tryDelete_integral (hintegral : Integral r.stores) (hwired : r.ScoresWired) (k : Kind)
    (key : String) : Integral (r.tryDelete k key).state.stores := by
  cases hhas : r.stores.has k key with
  | true =>
      obtain ⟨r', hok, -⟩ := cascade_wired k.level hwired hhas
      have hafter := delete_integral hintegral hok
      rw [← outcome_tryCascade, Attempt.outcome_eq_ok_iff] at hok
      rw [tryDelete, hok]
      exact hafter
  | false =>
      rw [tryDelete_refused hhas]
      exact hintegral

theorem tryRun_integral (hintegral : Integral r.stores) (hwired : r.ScoresWired) {op : Op}
    (hfits : r.FitsOp op) : Integral (r.tryRun op).state.stores := by
  have hwrite : op.Writes → Integral (r.tryRun op).state.stores := by
    intro hwrites
    rcases tryRun_write hwired hwrites hfits with ⟨r', hdone, -⟩ | ⟨e, hfail⟩
    · rw [← Attempt.outcome_eq_ok_iff, outcome_tryRun] at hdone
      have hafter := run_integral hintegral hdone
      rw [← outcome_tryRun, Attempt.outcome_eq_ok_iff] at hdone
      rw [hdone]
      exact hafter
    · rw [hfail]
      exact hintegral
  cases op with
  | create k key data => exact hwrite trivial
  | update k key data => exact hwrite trivial
  | mergeList k data => exact hwrite trivial
  | delete k key => exact tryDelete_integral hintegral hwired k key
  | deleteList k =>
      have hkept := Attempt.each_keeps (I := fun s : State => Integral s.stores ∧ s.ScoresWired)
        (f := fun s key => s.tryDelete k key)
        (fun s key hs => ⟨tryDelete_integral hs.1 hs.2 k key, tryDelete_wired hs.2 k key⟩)
        (r.stores k).keys ⟨hintegral, hwired⟩
      exact hkept.1

end State

/-- In a run whose operations store only what the callbacks can read, every reference of a stored
entity resolves.  A deletion of a stored entity ends, and takes away the entity and what depends on
it; one of an entity that is not stored is refused. -/
theorem references_resolve {r : State} (h : attemptMachine.ReachableVia State.FitsOp r) :
    Integral r.stores ∧ ∀ k key,
      (r.stores.has k key = true → ∃ r', r.tryDelete k key = .done r' ∧
        DeletesDependents r.stores (k, key) r'.stores) ∧
      (r.stores.has k key = false →
        r.tryDelete k key = .fail r (.invalidKey "Key not in store.")) := by
  have hkept : Integral r.stores ∧ r.ScoresWired := by
    refine Machine.ReachableVia.invariant
      (I := fun r : State => Integral r.stores ∧ r.ScoresWired) ?_ ?_ h
    · rintro s rfl
      exact ⟨integral_empty, scoresWired_empty⟩
    · rintro s op t ⟨hintegral, hwired⟩ hfits hstep
      cases hstep
      exact ⟨State.tryRun_integral hintegral hwired hfits, State.tryRun_wired hwired hfits⟩
  exact ⟨hkept.1, fun k key =>
    ⟨State.tryDelete_done hkept.1 hkept.2, State.tryDelete_refused⟩⟩

theorem references_resolve_deleted :
    submittedRanking.stores.has .submission "s1" = true ∧ Integral submittedRanking.stores ∧
      ∃ r', submittedRanking.tryDelete .contest "contest" = .done r' ∧
        DeletesDependents submittedRanking.stores (.contest, "contest") r'.stores := by
  obtain ⟨hintegral, hdelete⟩ := references_resolve submittedRanking_reachable
  exact ⟨by decide +kernel, hintegral, (hdelete .contest "contest").1 (by decide +kernel)⟩

/-- A task gets a mode that no callback knows, and one of its submissions is sent again. -/
def unknownModeOps : List Op :=
  [.create .contest "contest" contestData, .create .task "task" (taskData "max"),
    .create .user "user" userData, .create .submission "s1" (submissionData "user" 10),
    .create .submission "s2" (submissionData "user" 12),
    .create .subchange "a" (scoreData "s1" 10 40), .create .subchange "b" (scoreData "s2" 20 30),
    .update .task "task" (taskData "unknown"),
    .update .submission "s1" (submissionData "user" 10)]

def unknownModeRanking : State :=
  (attemptMachine.exec State.empty unknownModeOps).get rfl

/-- The deletion of the task raises when the first submission is gone, and the second one stays. -/
theorem deletion_leaves_dangling :
    let left := unknownModeRanking.tryDelete .task "task"
    (unknownModeOps.foldlM State.run State.empty).toOption = some unknownModeRanking ∧
      attemptMachine.Reachable left.state ∧ unknownModeRanking.stores.has .task "task" = true ∧
      left.raised = some (.crashed (.valueError "Unexpected score mode 'unknown'")) ∧
      ¬ Integral left.state.stores := by
  intro left
  have hreachable : attemptMachine.Reachable left.state := by
    have hexec : attemptMachine.exec State.empty (unknownModeOps ++ [.delete .task "task"]) =
        some left.state := rfl
    exact Machine.reachable_of_exec rfl hexec
  refine ⟨rfl, hreachable, by decide +kernel, by decide +kernel, fun hintegral => ?_⟩
  have hstored : (left.state.stores .submission).get? "s2" = some ⟨"user", "task", 12⟩ := by
    decide +kernel
  have hgone : left.state.stores.has .task "task" = false := by decide +kernel
  have hconsistent := hintegral .submission "s2" _ hstored
  simp [Data.consistent, hgone] at hconsistent

end Ranking
end ContestManagement
