import ContestManagement.Service.RegenerateKept

/-!
# A regenerate loses no score and no token

In every interleaving of the threads, the sweeps, the commits and one regenerate, successful or
not, whose steps are careful, all that is committed is missing from the sets of what was sent
or queued after the last reset once the threads are done.
-/

namespace ContestManagement
namespace Service
namespace Regenerate

open Lib

namespace Kept

variable {s s' : Proxy}

theorem mem_skipSubmission {id : ℕ} {jobs : List Key} {key : Key} (hmem : key ∈ jobs)
    (hne : key.submission ≠ id) : key ∈ skipSubmission id jobs := by
  unfold skipSubmission
  rw [← List.takeWhile_append_dropWhile (p := fun key : Key => decide (key.submission = id))
    (l := jobs)] at hmem
  rcases List.mem_append.1 hmem with htaken | hleft
  · have hsame := List.mem_takeWhile_imp htaken
    exact absurd (of_decide_eq_true hsame) hne
  · exact hleft

/-- A submission without a result is left out; nothing of it is committed. -/
theorem skip (h : Kept s) {before : Finset Key} {key : Key} {jobs : List Key}
    {operations : List Item} (hregen : s.regen = .building before (key :: jobs) none operations)
    (hskips : s.skips key = true) (htoken : s.committed.get? ⟨.token, key.submission⟩ = none) :
    Kept { s with
      regen := .building before (skipSubmission key.submission (key :: jobs)) none operations } := by
  refine h.build hregen (Finset.Subset.refl _) (fun k hk => Or.inl hk)
    (h.operations _ _ _ _ hregen) ?_
  rintro ⟨part, id⟩ value hcommitted (hjob | ⟨marked, hcurrent⟩ | hoperation)
  · refine Or.inl (mem_skipSubmission hjob ?_)
    rintro rfl
    cases part with
    | score =>
        have hresult := (h.stored _ value hcommitted).2 rfl
        unfold Proxy.skips at hskips
        rw [Bool.and_eq_true, decide_eq_true_eq, decide_eq_true_eq] at hskips
        exact hskips.2 hresult
    | token =>
        rw [htoken] at hcommitted
        cases hcommitted
  · cases hcurrent
  · exact Or.inr (Or.inr hoperation)

theorem readNothing (h : Kept s) {before : Finset Key} {key : Key} {jobs : List Key}
    {operations : List Item} (hregen : s.regen = .building before (key :: jobs) none operations)
    (hnone : s.committed.get? key = none) :
    Kept { s with regen := .building before jobs none operations } := by
  refine h.build hregen (Finset.Subset.refl _) (fun k hk => Or.inl hk)
    (h.operations _ _ _ _ hregen) ?_
  rintro k value hcommitted (hjob | ⟨marked, hcurrent⟩ | hoperation)
  · rcases List.mem_cons.1 hjob with rfl | hjob
    · rw [hnone] at hcommitted
      cases hcommitted
    · exact Or.inl hjob
  · cases hcurrent
  · exact Or.inr (Or.inr hoperation)

theorem readValue (h : Kept s) {before : Finset Key} {key : Key} {jobs : List Key} {v : ℚ}
    {operations : List Item} (hregen : s.regen = .building before (key :: jobs) none operations)
    (hsome : s.committed.get? key = some v) :
    Kept { s with regen := .building before jobs (some (key, v, false)) operations } := by
  refine h.build hregen (Finset.Subset.refl _) (fun k hk => Or.inl hk)
    (h.operations _ _ _ _ hregen) ?_
  rintro k value hcommitted (hjob | ⟨marked, hcurrent⟩ | hoperation)
  · rcases List.mem_cons.1 hjob with rfl | hjob
    · rw [hsome, Option.some.injEq] at hcommitted
      exact Or.inr (Or.inl ⟨false, by rw [hcommitted]⟩)
    · exact Or.inl hjob
  · cases hcurrent
  · exact Or.inr (Or.inr hoperation)

theorem mark (h : Kept s) {before : Finset Key} {key : Key} {jobs : List Key} {v : ℚ}
    {operations : List Item}
    (hregen : s.regen = .building before jobs (some (key, v, false)) operations) :
    Kept { s with
      sent := insert key s.sent
      regen := .building before jobs (some (key, v, true)) operations } := by
  have hbefore := h.before
  rw [hregen] at hbefore
  refine h.build hregen (Finset.subset_insert _ _) ?_ (h.operations _ _ _ _ hregen) ?_
  · intro k hk
    rcases Finset.mem_insert.1 hk with rfl | hk
    · by_cases hold : k ∈ before
      · exact Or.inl (hbefore hold)
      · exact Or.inr hold
    · exact Or.inl hk
  · rintro k value - (hjob | ⟨marked, hcurrent⟩ | hoperation)
    · exact Or.inl hjob
    · cases hcurrent
      exact Or.inr (Or.inl ⟨true, rfl⟩)
    · exact Or.inr (Or.inr hoperation)

theorem append (h : Kept s) {before : Finset Key} {key : Key} {jobs : List Key} {v : ℚ}
    {operations : List Item}
    (hregen : s.regen = .building before jobs (some (key, v, true)) operations) :
    Kept { s with
      regen := .building before jobs none
        (operations ++ [.submission key.submission, .subchange key (some v)]) } := by
  refine h.build hregen (Finset.Subset.refl _) (fun k hk => Or.inl hk) ?_ ?_
  · intro x hx
    rcases List.mem_append.1 hx with hold | hnew
    · exact h.operations _ _ _ _ hregen x hold
    · rcases List.mem_pair.1 hnew with rfl | rfl <;> rfl
  · rintro k value - (hjob | ⟨marked, hcurrent⟩ | hoperation)
    · exact Or.inl hjob
    · cases hcurrent
      exact Or.inr (Or.inr (by simp))
    · exact Or.inr (Or.inr (List.mem_append_left _ hoperation))

theorem regenerate (h : Kept s) (hcareful : LeavesNoToken s) (hstep : s.regenStep = some s') :
    Kept s' := by
  unfold Proxy.regenStep at hstep
  split at hstep
  case h_1 hregen =>
    cases hstep
    refine h.save ?_ ?_ rfl rfl (Finset.filter_subset _ _)
    · rw [hregen]
      rfl
    · rw [hregen]
      exact fun key => id
  case h_2 before hregen =>
    cases hstep
    have hbefore := h.before
    rw [hregen] at hbefore
    refine h.save ?_ ?_ rfl rfl (Finset.union_subset hbefore (Finset.filter_subset _ _))
    · rw [hregen]
      rfl
    · rw [hregen]
      exact fun key => id
  case h_3 before hregen =>
    cases hstep
    exact h.startBuild hregen
  case h_4 before hregen =>
    cases hstep
    exact h.query hregen
  case h_5 before key jobs operations hregen =>
    split at hstep
    case isTrue hskips =>
      cases hstep
      have hnext : key ∈ s.regen.upNext := by
        rw [hregen]
        rfl
      exact h.skip hregen hskips (hcareful key hnext hskips)
    case isFalse =>
      split at hstep
      case h_1 hnone =>
        cases hstep
        exact h.readNothing hregen hnone
      case h_2 v hsome =>
        cases hstep
        exact h.readValue hregen hsome
  case h_6 before jobs key v operations hregen =>
    cases hstep
    exact h.mark hregen
  case h_7 before jobs key v operations hregen =>
    cases hstep
    exact h.append hregen
  case h_8 before operations hregen =>
    cases hstep
    exact h.handOver hregen
  case h_9 part taken hregen =>
    cases hstep
    exact h.take hregen
  case h_10 part taken hregen =>
    cases hstep
    exact h.remove hregen
  case h_11 part before hregen =>
    cases hstep
    exact h.copySince hregen
  case h_12 part before since hregen =>
    cases hstep
    exact h.drop hregen
  case h_13 taken hregen =>
    cases hstep
    exact h.close hregen
  case h_14 => cases hstep

theorem step {label : Label} (h : Kept s) (hcareful : Careful s label)
    (hstep : s.step label = some s') : Kept s' := by
  cases label with
  | submit id =>
      cases hstep
      exact h.submit id
  | newResult id =>
      cases hstep
      exact h.newResult id
  | commit key value =>
      simp only [Proxy.step] at hstep
      split at hstep
      case isTrue hguard =>
        cases hstep
        exact h.commit hguard.1 hguard.2.1
      case isFalse => cases hstep
  | notify key =>
      cases hstep
      exact h.spawn rfl
  | sweep =>
      cases hstep
      exact h.spawn rfl
  | work i => exact h.work hcareful hstep
  | regenerate => exact h.regenerate hcareful hstep
  | fail => exact h.fail hstep

theorem of_init (h : machine.init s) : Kept s := by
  obtain ⟨hthreads, hregen, -, hstored, hloses⟩ := h
  refine of_closed hstored ?_ ?_ ?_ ?_ ?_
  · rw [hregen]
    rfl
  · rw [hregen]
    rfl
  · rw [hregen]
    exact Finset.empty_subset _
  · rintro key value - ⟨t, ht, -⟩
    rw [hthreads] at ht
    cases ht
  · intro key value hcommitted hkey
    exact Or.inl (Or.inl ((hloses key value hcommitted).resolve_left (not_not_intro hkey)))

/-- Once the threads are done, what is safe is queued. -/
theorem losesNothing (h : Kept s) (hdone : s.AllDone) : s.LosesNothing := by
  obtain ⟨hthreads, hregen⟩ := hdone
  have hsafe : ∀ key value, s.Safe key value → s.Carried key value := by
    rintro key value (hcarried | ⟨t, ht, hwill⟩)
    · exact hcarried
    · have hjobs := hthreads t ht
      rcases hwill with ⟨-, hread⟩ | ⟨stage, ⟨hhead, -⟩, -⟩
      · unfold Thread.unread at hread
        rw [hjobs] at hread
        split at hread <;> cases hread
      · rw [hjobs] at hhead
        cases hhead
  intro key value hcommitted
  by_cases hkey : key ∈ s.sent
  · right
    refine hsafe key value ?_
    cases hover : s.regen.handedOver with
    | false =>
        refine (h.sent hover key value hcommitted hkey).resolve_right fun hforgets => ?_
        rcases hregen with hregen | ⟨taken, hregen⟩
        · rw [hregen] at hforgets
          exact hforgets
        · rw [hregen] at hforgets
          exact hforgets
    | true =>
        refine (h.handed hover key value hcommitted hkey).resolve_right fun hgone => ?_
        rcases hregen with hregen | ⟨taken, hregen⟩
        · rw [hregen] at hover
          cases hover
        · rw [hregen] at hover hgone
          cases taken with
          | none => cases hover
          | some taken => cases hgone.2
  · exact Or.inl hkey

end Kept

/-- In every interleaving whose steps are careful nothing is lost once the threads are done. -/
theorem regenerate_loses_nothing {s : Proxy} (h : machine.ReachableVia Careful s)
    (hdone : s.AllDone) : s.LosesNothing := by
  have hkept : Kept s := Machine.ReachableVia.invariant (I := Kept)
    (fun _ hinit => Kept.of_init hinit) (fun _ _ _ hs hcareful hstep => hs.step hcareful hstep) h
  exact hkept.losesNothing hdone

instance (s : Proxy) (t : Thread) : Decidable (PutsBackNothing s t) :=
  match hphase : t.phase with
  | .busy .adding value =>
      decidable_of_iff (∀ key ∈ t.jobs.head?, s.regen.removed key.part = true →
        key ∈ s.regen.taken → key ∉ s.sent → value = s.committed.get? key) (by
          unfold PutsBackNothing
          simp [hphase])
  | .next => isTrue (by simp [PutsBackNothing, hphase])
  | .busy .loaded _ => isTrue (by simp [PutsBackNothing, hphase])
  | .busy .marking _ => isTrue (by simp [PutsBackNothing, hphase])
  | .busy (.noting _) _ => isTrue (by simp [PutsBackNothing, hphase])
  | .busy .sending _ => isTrue (by simp [PutsBackNothing, hphase])
  | .busy .sendingChange _ => isTrue (by simp [PutsBackNothing, hphase])

instance (s : Proxy) : Decidable (LeavesNoToken s) :=
  inferInstanceAs (Decidable (∀ key ∈ s.regen.upNext, s.skips key = true →
    s.committed.get? ⟨.token, key.submission⟩ = none))

instance (s : Proxy) : (label : Label) → Decidable (Careful s label)
  | .work i => inferInstanceAs (Decidable (∀ t ∈ s.threads[i]?, PutsBackNothing s t))
  | .regenerate => inferInstanceAs (Decidable (LeavesNoToken s))
  | .submit _ => isTrue trivial
  | .newResult _ => isTrue trivial
  | .commit _ _ => isTrue trivial
  | .notify _ => isTrue trivial
  | .sweep => isTrue trivial
  | .fail => isTrue trivial

/-! A submission that is scored twice. -/

/-- The service with the submission 7. -/
def newProxy (results : List ℕ) : Proxy :=
  ⟨[7], results, Dict.empty, ∅, false, ∅, [], [], .idle⟩

def scoreOfSeven : Key := ⟨.score, 7⟩

def tokenOfSeven : Key := ⟨.token, 7⟩

theorem init_newProxy (results : List ℕ) : machine.init (newProxy results) := by
  refine ⟨rfl, rfl, rfl, ?_, ?_⟩
  · intro key value hcommitted
    cases hcommitted
  · intro key value hcommitted
    cases hcommitted

/-- A thread takes some steps. -/
def works (thread steps : Nat) : List Label := List.replicate steps (.work thread)

def regenerates (steps : Nat) : List Label := List.replicate steps .regenerate

/-- The regenerate reads the first score; the second one is sent while it builds. -/
def rescored : List Label :=
  regenerates 5 ++ [.commit scoreOfSeven 90] ++ works 1 7 ++ regenerates 9

/-- The thread of the first score is done before the regenerate begins. -/
def rescoredInTime : Proxy :=
  (machine.execVia Careful (newProxy [7])
    ([.commit scoreOfSeven 50] ++ works 0 7 ++ rescored)).get (by decide +kernel)

theorem regenerate_loses_nothing_rescored :
    rescoredInTime.LosesNothing ∧ scoreOfSeven ∉ rescoredInTime.sent := by
  have hpath : machine.Path Careful (newProxy [7]) rescoredInTime :=
    Machine.path_of_execVia (Option.some_get _).symm
  refine ⟨regenerate_loses_nothing ⟨_, init_newProxy [7], hpath⟩ ⟨by decide +kernel, Or.inr ?_⟩,
    by decide +kernel⟩
  exact ⟨some {scoreOfSeven}, by decide +kernel⟩

/-- The thread of the first score has read it and is slow. -/
def putBack : Proxy :=
  (machine.exec (newProxy [7])
    ([.commit scoreOfSeven 50] ++ works 0 1 ++ rescored ++ works 0 6)).get (by decide +kernel)

/-- The token of a submission without a result is sent, and then the regenerate begins. -/
def tokenLeftOut : Proxy :=
  (machine.exec (newProxy [])
    ([.commit tokenOfSeven 1] ++ works 0 7 ++ regenerates 11)).get (by decide +kernel)

/-- A value that is marked as sent and not queued after the last reset is lost. -/
theorem not_losesNothing {s : Proxy} (key : Key) (value : ℚ)
    (hcommitted : s.committed.get? key = some value) (hsent : key ∈ s.sent)
    (hqueue : Item.subchange key (some value) ∉ sinceLast Item.isReset s.queue) :
    ¬ s.LosesNothing := by
  intro hloses
  rcases hloses key value hcommitted with hnot | hcarried
  · exact hnot hsent
  · exact hqueue hcarried

/-- A token is wiped and not sent again, and so is a score that a slow thread puts back. -/
theorem regenerate_loses_token :
    (machine.Reachable tokenLeftOut ∧ tokenLeftOut.AllDone ∧ ¬ tokenLeftOut.LosesNothing) ∧
      machine.Reachable putBack ∧ putBack.AllDone ∧ ¬ putBack.LosesNothing := by
  refine ⟨⟨?_, ⟨by decide +kernel, Or.inr ⟨some ∅, by decide +kernel⟩⟩, ?_⟩,
    ?_, ⟨by decide +kernel, Or.inr ⟨some {scoreOfSeven}, by decide +kernel⟩⟩, ?_⟩
  · exact Machine.reachable_of_exec (init_newProxy []) (Option.some_get _).symm
  · exact not_losesNothing tokenOfSeven 1 (by decide +kernel)
      (by decide +kernel) (by decide +kernel)
  · exact Machine.reachable_of_exec (init_newProxy [7]) (Option.some_get _).symm
  · exact not_losesNothing scoreOfSeven 90 (by decide +kernel)
      (by decide +kernel) (by decide +kernel)

end Regenerate
end Service
end ContestManagement
