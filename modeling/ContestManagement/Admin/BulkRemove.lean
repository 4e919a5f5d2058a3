import ContestManagement.Admin.RemovalPlan

/-!
# Removing many users

An administrator is shown the plan of a removal and confirms it.  The confirmation computes the
plan again, for the users that were posted, and removes them only if it still has the fingerprint
of the one that was shown.  The database may have gone on in between; the plan of a confirmation
and its removal see one state.

The digest of a plan is any function that does not confuse another plan with the one shown.
-/

namespace ContestManagement
namespace Admin
namespace BulkRemove

open Lib

/-! ## The pages -/

/-- The most users of a plan. -/
def maxPlanUsers : Nat := 9900

/-- The plan that is shown, if there is one. -/
def preview (db : Database) (contest : Option ℤ) (userIds : List ℤ) (usernames : List String)
    (now : ℤ) : Option RemovalPlan :=
  if userIds = [] ∧ usernames = [] then none
  else
    let plan := planRemoval db contest userIds usernames now
    if maxPlanUsers < plan.users.length then none else some plan

inductive Confirmed
  | nothingChosen
  | planChanged (plan : RemovalPlan)
  | wrongCount (plan : RemovalPlan)
  | failed
  | removed (db : Database) (count : Nat) (groups : List (Option String))

/-- The confirmation, with whether the transaction can be committed. -/
def confirm (digest : List (ℤ × Nat × Nat × List String) × Bool → String) (db : Database)
    (contest : Option ℤ) (userIds : List ℤ) (fingerprint expectedCount : String) (now : ℤ)
    (commits : Bool) : Confirmed :=
  if userIds = [] then .nothingChosen
  else
    let plan := planRemoval db contest userIds [] now
    if fingerprint ≠ digest plan.shown then .planChanged plan
    else if expectedCount ≠ toString plan.users.length then .wrongCount plan
    else if commits then
      let result := db.remove contest plan.userIds
      .removed result.1 result.2 plan.groups
    else .failed

/-! ## The confirmation of what was shown -/

section Confirm

variable {digest : List (ℤ × Nat × Nat × List String) × Bool → String} {db db' : Database}
  {contest : Option ℤ} {posted : List ℤ} {fingerprint typed : String} {now now' : ℤ}
  {commits : Bool} {count : Nat} {groups : List (Option String)} {shown : RemovalPlan}

theorem confirm_removed
    (h : confirm digest db contest posted fingerprint typed now commits =
      .removed db' count groups) :
    fingerprint = digest (planRemoval db contest posted [] now).shown ∧
      typed = toString (planRemoval db contest posted [] now).users.length ∧
      db' = (db.remove contest (planRemoval db contest posted [] now).userIds).1 ∧
      count = (db.remove contest (planRemoval db contest posted [] now).userIds).2 ∧
      groups = (planRemoval db contest posted [] now).groups := by
  simp only [confirm] at h
  split at h
  · cases h
  · split at h
    · cases h
    · next hfingerprint =>
        split at h
        · cases h
        · next htyped =>
            split at h
            · cases h
              exact ⟨not_not.1 hfingerprint, not_not.1 htyped, rfl, rfl, rfl⟩
            · cases h

/-- A confirmed removal removes the users, or the participations, that were shown, whatever was
posted and whatever else changed since: as many as were typed, with the submissions and the user
tests that were counted and the contests that were named, and nothing else.  The ranking of every
contest that loses a participation is sent again. -/
theorem removes_what_was_shown
    (hdigest : ∀ seen, digest seen = digest shown.shown → seen = shown.shown)
    (h : confirm digest db contest posted (digest shown.shown) typed now commits =
      .removed db' count groups) :
    typed = toString shown.users.length ∧ count = shown.users.length ∧
      db'.users = db.users.filter (fun u => contest.isSome || !shown.userIds.contains u.id) ∧
      db'.participations = db.participations.filter (fun p => !takes contest shown.userIds p) ∧
      db'.submissions = db.submissions.filter (fun row => !takesRow db contest shown.userIds row) ∧
      db'.userTests = db.userTests.filter (fun row => !takesRow db contest shown.userIds row) ∧
      db.submissions.length = db'.submissions.length + shown.submissions ∧
      db.userTests.length = db'.userTests.length + shown.userTests ∧
      ∀ p ∈ db.participations, takes contest shown.userIds p →
        p.contest.rankingGroup ∈ groups ∧
          ∃ entry ∈ shown.users, entry.userId = p.user ∧ p.contest.name ∈ entry.contests := by
  obtain ⟨hfingerprint, htyped, rfl, rfl, rfl⟩ := confirm_removed h
  have hshown := hdigest _ hfingerprint.symm
  -- The plan of the confirmation takes the users that were shown, so their counts are its counts.
  have hids : (planRemoval db contest posted [] now).userIds = shown.userIds := by
    rw [RemovalPlan.userIds_eq, RemovalPlan.userIds_eq, hshown]
  have hlength : (planRemoval db contest posted [] now).users.length = shown.users.length := by
    rw [← RemovalPlan.length_userIds, ← RemovalPlan.length_userIds, hids]
  have hsubmissions : shown.submissions =
      db.submissions.countP (takesRow db contest shown.userIds) := by
    rw [← hids, ← submissions_planRemoval, RemovalPlan.submissions_eq, RemovalPlan.submissions_eq,
      hshown]
  have huserTests : shown.userTests = db.userTests.countP (takesRow db contest shown.userIds) := by
    rw [← hids, ← userTests_planRemoval, RemovalPlan.userTests_eq, RemovalPlan.userTests_eq, hshown]
  refine ⟨hlength ▸ htyped, ?_, ?_, ?_, ?_, ?_, ?_, ?_, ?_⟩
  · rw [count_removed, hlength]
  · rw [remove_users, hids]
  · rw [remove_participations, hids]
  · rw [remove_submissions, hids]
  · rw [remove_userTests, hids]
  · rw [remove_submissions, hids, hsubmissions]
    exact length_eq_filter_not _ _
  · rw [remove_userTests, hids, huserTests]
    exact length_eq_filter_not _ _
  · intro p hp htaken
    rw [← hids] at htaken
    refine ⟨groups_planRemoval hp htaken, ?_⟩
    obtain ⟨entry, hentry, hid, hname⟩ := contests_planRemoval hp htaken
    have hmem := RemovalPlan.mem_shown hentry
    rw [hshown] at hmem
    obtain ⟨other, hother, heq⟩ := RemovalPlan.exists_of_mem_shown hmem
    simp only [Prod.mk.injEq] at heq
    exact ⟨other, hother, heq.1.trans hid, heq.2.2.2 ▸ hname⟩

/-- Ana is removed from the platform while Eva goes on submitting. -/
def finalRound : Contest := ⟨1, "final", some "day1"⟩

def atPreview : Database where
  users := [⟨7, "ana", "Ana", "Ruiz"⟩, ⟨9, "eva", "Eva", "Soto"⟩]
  participations := [⟨70, finalRound, 7, 0, 100, 0, 0⟩, ⟨90, finalRound, 9, 0, 100, 0, 0⟩]
  submissions := [⟨700, 70⟩, ⟨900, 90⟩, ⟨701, 70⟩]
  userTests := []
  userIds := by decide
  usernames := by decide
  participationIds := by decide
  oncePerContest := by decide
  participants := by decide

def atConfirmation : Database :=
  { atPreview with submissions := [⟨700, 70⟩, ⟨900, 90⟩, ⟨701, 70⟩, ⟨901, 90⟩] }

def anaShown : RemovalPlan where
  users := [⟨7, "ana", "Ana", "Ruiz", 2, 0, ["final"]⟩]
  ignored := []
  running := false
  groups := [some "day1"]

def anaDigest (seen : List (ℤ × Nat × Nat × List String) × Bool) : String :=
  if seen = anaShown.shown then
    "cc1d4d47c026fdbd4d332b30e1f419756e772298f2d381da5af0c85ee575caf0"
  else ""

theorem anaDigest_eq (seen : List (ℤ × Nat × Nat × List String) × Bool)
    (h : anaDigest seen = anaDigest anaShown.shown) : seen = anaShown.shown := by
  by_contra hne
  rw [anaDigest, anaDigest, if_neg hne, if_pos rfl] at h
  exact absurd h (by decide)

theorem removes_what_was_shown_ana :
    ∃ db', confirm anaDigest atConfirmation none [7] (anaDigest anaShown.shown) "1" 300 true =
        .removed db' 1 [some "day1"] ∧
      db'.users = [⟨9, "eva", "Eva", "Soto"⟩] ∧ db'.submissions.length = 2 := by
  have h : confirm anaDigest atConfirmation none [7] (anaDigest anaShown.shown) "1" 300 true =
      .removed (atConfirmation.remove none [7]).1 1 [some "day1"] := by
    rfl
  obtain ⟨-, -, husers, -, -, -, hsubmissions, -⟩ := removes_what_was_shown anaDigest_eq h
  refine ⟨_, h, husers, ?_⟩
  have hcounts : atConfirmation.submissions.length = 4 ∧ anaShown.submissions = 2 :=
    ⟨rfl, rfl⟩
  omega

/-! ## A preview that nothing has changed since -/

variable {userIds : List ℤ} {usernames : List String}

/-- Choosing the users of a plan by their ids leaves the same ids. -/
theorem userIds_again :
    (planRemoval db contest (planRemoval db contest userIds usernames now).userIds []
      now').userIds = (planRemoval db contest userIds usernames now).userIds := by
  have hmem : ∀ id,
      id ∈ (planRemoval db contest (planRemoval db contest userIds usernames now).userIds []
        now').userIds ↔ id ∈ (planRemoval db contest userIds usernames now).userIds := by
    intro id
    rw [mem_userIds]
    constructor
    · intro hagain
      obtain ⟨u, hu⟩ := Option.isSome_iff_exists.1 hagain
      rw [planned, get?_sifted] at hu
      split at hu
      · exact absurd hu (by simp)
      · obtain ⟨value, hchosen, hid⟩ := foundUsers_spec hu
        rw [chosenUsers, List.map_nil, List.append_nil] at hchosen
        obtain ⟨other, hother, hpair⟩ := List.mem_map.1 hchosen
        have hfound := List.find?_some (Prod.ext_iff.1 hpair).2
        rw [decide_eq_true_eq] at hfound
        exact hid ▸ hfound ▸ hother
    · intro hfirst
      obtain ⟨u, hu⟩ := Option.isSome_iff_exists.1 ((mem_userIds _).1 hfirst)
      obtain ⟨hmem, hid, hscope⟩ := planned_spec hu
      have hchosen : isChosen (chosenUsers db
          (planRemoval db contest userIds usernames now).userIds []) id = true := by
        rw [isChosen, List.any_eq_true]
        refine ⟨_, List.mem_append_left _ (List.mem_map.2 ⟨id, hfirst, rfl⟩), ?_⟩
        have hsome : (db.users.find? fun u => decide (u.id = id)).isSome := by
          rw [List.find?_isSome]
          exact ⟨u, hmem, decide_eq_true hid⟩
        obtain ⟨v, hv⟩ := Option.isSome_iff_exists.1 hsome
        rw [hv]
        have hfound := List.find?_some hv
        exact hfound
      rw [← isSome_foundUsers] at hchosen
      -- Nobody is sifted out without a contest; with one, a planned user participates.
      cases contest with
      | none =>
          rw [planned, get?_sifted, if_neg (fun h => absurd h.1 (by simp))]
          exact hchosen
      | some scope =>
          obtain ⟨p, hp, hin, rfl⟩ := hscope scope rfl
          rw [planned_isSome hp (by simp [inScope, hin])]
          exact hchosen
  refine List.Perm.eq_of_pairwise ?_ (RemovalPlan.sorted_userIds _) (RemovalPlan.sorted_userIds _)
    ((List.perm_ext_iff_of_nodup (userIds_nodup now') (userIds_nodup now)).2 hmem)
  intro a b _ _ hab hba
  exact Int.le_antisymm hab hba

theorem participationsOf_again :
    participationsOf db contest (foundUsers (chosenUsers db
        (planRemoval db contest userIds usernames now).userIds [])) =
      participationsOf db contest (foundUsers (chosenUsers db userIds usernames)) := by
  refine List.filter_congr fun p hp => ?_
  cases hin : inScope contest p with
  | false => simp
  | true =>
      rw [← planned_isSome hp hin, ← planned_isSome hp hin, Bool.and_true, Bool.and_true,
        Bool.eq_iff_iff, ← mem_userIds now, ← mem_userIds now, userIds_again]

/-- What the fingerprint covers of a user. -/
def digested (db : Database) (participations : List Participation) (id : ℤ) :
    ℤ × Nat × Nat × List String :=
  (id, countByUser db db.submissions (participations.map Participation.id) id,
    countByUser db db.userTests (participations.map Participation.id) id,
    (((participations.filter fun p => p.user = id).map fun p =>
      p.contest.name).dedup).insertionSort (· ≤ ·))

theorem shown_planRemoval :
    (planRemoval db contest userIds usernames now).shown.1 =
      (planRemoval db contest userIds usernames now).userIds.map (digested db
        (participationsOf db contest (foundUsers (chosenUsers db userIds usernames)))) := by
  rw [RemovalPlan.userIds_eq, RemovalPlan.shown, List.map_map, List.map_map]
  refine List.map_congr_left fun entry hentry => ?_
  rw [(List.perm_insertionSort _ _).mem_iff, users_planRemoval] at hentry
  obtain ⟨u, -, rfl⟩ := List.mem_map.1 hentry
  rfl

/-- A preview that nothing has changed since is confirmed at the first try. -/
theorem confirms_what_was_shown
    (h : preview db contest userIds usernames now = some shown) (hsome : shown.users ≠ [])
    (hrunning : ∀ p ∈ db.participations, p.isRunning now' = p.isRunning now) :
    ∃ db' groups, confirm digest db contest shown.userIds (digest shown.shown)
      (toString shown.users.length) now' true = .removed db' shown.users.length groups := by
  have hplan : shown = planRemoval db contest userIds usernames now := by
    simp only [preview] at h
    split at h
    · cases h
    · split at h
      · cases h
      · exact (Option.some.inj h).symm
  have hnonempty : shown.userIds ≠ [] := by
    rw [← List.length_pos_iff, RemovalPlan.length_userIds, List.length_pos_iff]
    exact hsome
  have hids : (planRemoval db contest shown.userIds [] now').userIds = shown.userIds := by
    rw [hplan, userIds_again]
  have hlength : (planRemoval db contest shown.userIds [] now').users.length =
      shown.users.length := by
    rw [← RemovalPlan.length_userIds, ← RemovalPlan.length_userIds, hids]
  have hshown : (planRemoval db contest shown.userIds [] now').shown = shown.shown := by
    refine Prod.ext ?_ ?_
    · rw [shown_planRemoval, hids, hplan, participationsOf_again, shown_planRemoval]
    · have hany : ((participationsOf db contest (foundUsers (chosenUsers db shown.userIds []))).any
          fun p => p.isRunning now') = (participationsOf db contest
            (foundUsers (chosenUsers db userIds usernames))).any fun p => p.isRunning now := by
        rw [hplan, participationsOf_again]
        rw [Bool.eq_iff_iff, List.any_eq_true, List.any_eq_true]
        refine exists_congr fun p => and_congr_right fun hp => ?_
        rw [hrunning p (List.mem_filter.1 hp).1]
      rw [hplan] at hany ⊢
      exact hany
  have hremoved : confirm digest db contest shown.userIds (digest shown.shown)
      (toString shown.users.length) now' true =
      .removed (db.remove contest shown.userIds).1 (db.remove contest shown.userIds).2
        (planRemoval db contest shown.userIds [] now').groups := by
    simp only [confirm]
    rw [if_neg hnonempty, hshown, if_neg (not_not.2 rfl), hlength, if_neg (not_not.2 rfl), hids]
    rfl
  have hcount : (db.remove contest shown.userIds).2 = shown.users.length := by
    rw [← hids, count_removed, hlength]
  exact ⟨_, _, hcount ▸ hremoved⟩

theorem preview_ana : preview atPreview none [7] [] 200 = some anaShown := by
  rfl

theorem confirms_what_was_shown_ana :
    ∃ db' groups, confirm anaDigest atPreview none [7] (anaDigest anaShown.shown) "1" 300 true =
      .removed db' 1 groups :=
  confirms_what_was_shown preview_ana (by decide) (by decide)

end Confirm

end BulkRemove
end Admin
end ContestManagement
