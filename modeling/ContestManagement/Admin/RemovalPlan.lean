import Mathlib.Algebra.Order.Ring.Int
import Mathlib.Data.List.Dedup
import Mathlib.Data.List.Sort
import Mathlib.Data.String.Basic
import ContestManagement.Lib.Counting
import ContestManagement.Lib.Dict

/-!
# The plan of a removal

An administrator chooses users by their ids and usernames, to remove them or their participations
in one contest.  The plan of the removal says who is taken and what goes with them, by
`ON DELETE CASCADE`.
-/

namespace ContestManagement
namespace Admin
namespace BulkRemove

open Lib

/-! ## The database -/

structure Contest where
  id : ℤ
  name : String
  rankingGroup : Option String

structure User where
  id : ℤ
  username : String
  firstName : String
  lastName : String

/-- A participation with its contest and the times of its group. -/
structure Participation where
  id : ℤ
  contest : Contest
  user : ℤ
  start : ℤ
  stop : ℤ
  delayTime : ℤ
  extraTime : ℤ

/-- A submission or a user test. -/
structure Row where
  id : ℤ
  participation : ℤ

/-- The tables, with their constraints. -/
structure Database where
  users : List User
  participations : List Participation
  submissions : List Row
  userTests : List Row
  userIds : (users.map User.id).Nodup
  usernames : (users.map User.username).Nodup
  participationIds : (participations.map Participation.id).Nodup
  oncePerContest : (participations.map fun p => (p.contest.id, p.user)).Nodup
  participants : ∀ p ∈ participations, p.user ∈ users.map User.id

namespace Database

/-- The participations that go away with some users and some participations. -/
def lost (db : Database) (users : User → Bool) (participations : Participation → Bool)
    (p : Participation) : Bool :=
  participations p || db.users.any fun u => users u && u.id = p.user

/-- The rows that hang from a participation that goes away. -/
def lostRow (db : Database) (users : User → Bool) (participations : Participation → Bool)
    (row : Row) : Bool :=
  db.participations.any fun p => db.lost users participations p && p.id = row.participation

/-- `DELETE` of some users and some participations, and what cascades from it. -/
def delete (db : Database) (users : User → Bool) (participations : Participation → Bool) :
    Database where
  users := db.users.filter fun u => !users u
  participations := db.participations.filter fun p => !db.lost users participations p
  submissions := db.submissions.filter fun row => !db.lostRow users participations row
  userTests := db.userTests.filter fun row => !db.lostRow users participations row
  userIds := db.userIds.sublist (List.filter_sublist.map _)
  usernames := db.usernames.sublist (List.filter_sublist.map _)
  participationIds := db.participationIds.sublist (List.filter_sublist.map _)
  oncePerContest := db.oncePerContest.sublist (List.filter_sublist.map _)
  participants := by
    intro p hp
    rw [List.mem_filter] at hp
    obtain ⟨u, hu, hid⟩ := List.mem_map.1 (db.participants p hp.1)
    refine List.mem_map.2 ⟨u, List.mem_filter.2 ⟨hu, ?_⟩, hid⟩
    cases hgone : users u
    · rfl
    · have hlost : db.lost users participations p = true := by
        rw [lost, Bool.or_eq_true, List.any_eq_true]
        exact Or.inr ⟨u, hu, by simp [hgone, hid]⟩
      rw [hlost] at hp
      exact absurd hp.2 (by simp)

/-- `remove_users`, with how many were removed. -/
def removeUsers (db : Database) (ids : List ℤ) : Database × Nat :=
  (db.delete (fun u => ids.contains u.id) fun _ => false,
    db.users.countP fun u => ids.contains u.id)

/-- `remove_participations`, with how many were removed. -/
def removeParticipations (db : Database) (contest : ℤ) (ids : List ℤ) : Database × Nat :=
  (db.delete (fun _ => false) fun p => p.contest.id = contest && ids.contains p.user,
    db.participations.countP fun p => p.contest.id = contest && ids.contains p.user)

/-- What a confirmation removes. -/
def remove (db : Database) (contest : Option ℤ) (ids : List ℤ) : Database × Nat :=
  match contest with
  | none => db.removeUsers ids
  | some contest => db.removeParticipations contest ids

end Database

/-! ## The plan of a removal -/

/-- A user that a removal takes, with what goes with them. -/
structure RemovalEntry where
  userId : ℤ
  username : String
  firstName : String
  lastName : String
  submissions : Nat
  userTests : Nat
  contests : List String

structure RemovalPlan where
  users : List RemovalEntry
  ignored : List (String × String)
  running : Bool
  groups : List (Option String)

namespace RemovalPlan

def userIds (plan : RemovalPlan) : List ℤ :=
  (plan.users.map RemovalEntry.userId).insertionSort (· ≤ ·)

def submissions (plan : RemovalPlan) : Nat := (plan.users.map RemovalEntry.submissions).sum

def userTests (plan : RemovalPlan) : Nat := (plan.users.map RemovalEntry.userTests).sum

/-- What the fingerprint is the digest of. -/
def shown (plan : RemovalPlan) : List (ℤ × Nat × Nat × List String) × Bool :=
  ((plan.users.insertionSort fun a b => a.userId ≤ b.userId).map fun entry =>
    (entry.userId, entry.submissions, entry.userTests, entry.contests), plan.running)

end RemovalPlan

/-- The rows of the participations that each user has. -/
def countByUser (db : Database) (rows : List Row) (ids : List ℤ) (user : ℤ) : Nat :=
  rows.countP fun row => db.participations.any fun p =>
    p.id = row.participation && ids.contains p.id && p.user = user

/-- What was chosen: each value and its user, if any. -/
def chosenUsers (db : Database) (userIds : List ℤ) (usernames : List String) :
    List (String × Option User) :=
  (userIds.map fun id => (toString id, db.users.find? fun u => u.id = id)) ++
    usernames.map fun username => (username, db.users.find? fun u => u.username = username)

def addFound (found : Dict ℤ User) (choice : String × Option User) : Dict ℤ User :=
  match choice.2 with
  | some u => found.set u.id u
  | none => found

def foundUsers (chosen : List (String × Option User)) : Dict ℤ User :=
  chosen.foldl addFound Dict.empty

/-- The participations of a contest, or of any. -/
def inScope (contest : Option ℤ) (p : Participation) : Bool :=
  contest.all fun id => p.contest.id = id

def addIgnored (ignored : List (String × String)) (entry : String × String) :
    List (String × String) :=
  if entry ∈ ignored then ignored else ignored ++ [entry]

/-- One choice: a user who does not participate is taken out again. -/
def sift (contest : Option ℤ) (participating : List ℤ)
    (state : List (String × String) × Dict ℤ User) (choice : String × Option User) :
    List (String × String) × Dict ℤ User :=
  match choice.2 with
  | none => (addIgnored state.1 (choice.1, "no existe"), state.2)
  | some u =>
      if contest.isSome && !participating.contains u.id then
        (addIgnored state.1 (u.username, "no participa en el concurso"), state.2.erase u.id)
      else state

/-- A contest is running for a participation. -/
def Participation.isRunning (p : Participation) (now : ℤ) : Bool :=
  p.start + p.delayTime ≤ now && now ≤ p.stop + p.delayTime + p.extraTime

/-- The entry of a user with some participations. -/
def entryOf (db : Database) (participations : List Participation) (u : User) : RemovalEntry :=
  let ids := participations.map Participation.id
  { userId := u.id
    username := u.username
    firstName := u.firstName
    lastName := u.lastName
    submissions := countByUser db db.submissions ids u.id
    userTests := countByUser db db.userTests ids u.id
    contests := (((participations.filter fun p => p.user = u.id).map fun p =>
      p.contest.name).dedup).insertionSort (· ≤ ·) }

/-- The participations of the users that were found. -/
def participationsOf (db : Database) (contest : Option ℤ) (found : Dict ℤ User) :
    List Participation :=
  db.participations.filter fun p => (found.get? p.user).isSome && inScope contest p

def planRemoval (db : Database) (contest : Option ℤ) (userIds : List ℤ) (usernames : List String)
    (now : ℤ) : RemovalPlan :=
  let chosen := chosenUsers db userIds usernames
  let found := foundUsers chosen
  let participations := participationsOf db contest found
  let sifted := chosen.foldl (sift contest (participations.map Participation.user)) ([], found)
  { users := ((sifted.2.items.map Prod.snd).insertionSort fun a b => a.username ≤ b.username).map
      (entryOf db participations)
    ignored := sifted.1
    running := participations.any fun p => p.isRunning now
    groups := ((participations.map fun p => p.contest.rankingGroup).dedup).insertionSort
      fun a b => a.getD "" ≤ b.getD "" }

/-! ## What a removal takes -/

/-- The participations that removing some users takes. -/
def takes (contest : Option ℤ) (ids : List ℤ) (p : Participation) : Bool :=
  inScope contest p && ids.contains p.user

variable {db : Database} {contest : Option ℤ} {ids : List ℤ}

theorem lost_users {p : Participation} (hp : p ∈ db.participations) :
    db.lost (fun u => ids.contains u.id) (fun _ => false) p = takes none ids p := by
  obtain ⟨u, hu, hid⟩ := List.mem_map.1 (db.participants p hp)
  simp only [Database.lost, takes, inScope, Option.all_none, Bool.false_or, Bool.true_and]
  rw [Bool.eq_iff_iff, List.any_eq_true]
  constructor
  · rintro ⟨other, -, hother⟩
    rw [Bool.and_eq_true, decide_eq_true_eq] at hother
    rw [← hother.2]
    exact hother.1
  · intro hin
    exact ⟨u, hu, by rw [hid, hin, decide_eq_true rfl]; rfl⟩

theorem lost_participations (scope : ℤ) (p : Participation) :
    db.lost (fun _ => false) (fun p => p.contest.id = scope && ids.contains p.user) p =
      takes (some scope) ids p := by
  have hnone : (db.users.any fun u => false && decide (u.id = p.user)) = false := by simp
  rw [Database.lost, hnone, Bool.or_false]
  rfl

/-- The rows that removing some users takes. -/
def takesRow (db : Database) (contest : Option ℤ) (ids : List ℤ) (row : Row) : Bool :=
  db.participations.any fun p => takes contest ids p && p.id = row.participation

theorem remove_participations :
    (db.remove contest ids).1.participations =
      db.participations.filter fun p => !takes contest ids p := by
  cases contest with
  | none => exact List.filter_congr fun p hp => by rw [lost_users hp]
  | some scope => exact List.filter_congr fun p _ => by rw [lost_participations]

/-- Rows go away with participations. -/
theorem lostRow_eq {users : User → Bool} {participations : Participation → Bool}
    (h : ∀ p ∈ db.participations, db.lost users participations p = takes contest ids p)
    (row : Row) : db.lostRow users participations row = takesRow db contest ids row := by
  rw [Database.lostRow, takesRow, Bool.eq_iff_iff, List.any_eq_true, List.any_eq_true]
  refine exists_congr fun p => and_congr_right fun hp => ?_
  rw [h p hp]

theorem remove_submissions :
    (db.remove contest ids).1.submissions =
      db.submissions.filter fun row => !takesRow db contest ids row := by
  cases contest with
  | none => exact List.filter_congr fun row _ => by rw [lostRow_eq fun _ => lost_users]
  | some scope =>
      exact List.filter_congr fun row _ => by
        rw [lostRow_eq fun p _ => lost_participations scope p]

theorem remove_userTests :
    (db.remove contest ids).1.userTests =
      db.userTests.filter fun row => !takesRow db contest ids row := by
  cases contest with
  | none => exact List.filter_congr fun row _ => by rw [lostRow_eq fun _ => lost_users]
  | some scope =>
      exact List.filter_congr fun row _ => by
        rw [lostRow_eq fun p _ => lost_participations scope p]

theorem remove_users :
    (db.remove contest ids).1.users =
      db.users.filter fun u => contest.isSome || !ids.contains u.id := by
  cases contest with
  | none => rfl
  | some scope => rfl

theorem remove_count (hids : ids.Nodup) (husers : ∀ id ∈ ids, id ∈ db.users.map User.id)
    (hscope : ∀ id ∈ ids, ∀ scope, contest = some scope →
      ∃ p ∈ db.participations, p.contest.id = scope ∧ p.user = id) :
    (db.remove contest ids).2 = ids.length := by
  cases contest with
  | none => exact countP_contains db.userIds hids husers
  | some scope =>
      have hnodup : ((db.participations.filter fun p => p.contest.id = scope).map
          Participation.user).Nodup := by
        have hsub : (db.participations.filter fun p => p.contest.id = scope).Sublist
            db.participations := List.filter_sublist
        have hpairs := db.oncePerContest.sublist (hsub.map _)
        refine List.Nodup.of_map (fun user => (scope, user)) ?_
        rw [List.map_map]
        refine (List.map_congr_left fun p hp => ?_) ▸ hpairs
        rw [List.mem_filter, decide_eq_true_eq] at hp
        rw [hp.2]
        rfl
      have hcount := countP_contains hnodup hids fun id hid => by
        obtain ⟨p, hp, hcontest, huser⟩ := hscope id hid scope rfl
        exact List.mem_map.2 ⟨p, List.mem_filter.2 ⟨hp, decide_eq_true hcontest⟩, huser⟩
      rw [List.countP_filter] at hcount
      rw [← hcount]
      exact List.countP_congr fun p _ => by rw [Bool.and_comm]

/-! ## What was shown -/

namespace RemovalPlan

theorem userIds_eq (plan : RemovalPlan) : plan.userIds = plan.shown.1.map Prod.fst := by
  rw [userIds, shown, List.map_map]
  symm
  exact List.map_insertionSort _ _ _ _ fun _ _ _ _ => Iff.rfl

theorem sorted_userIds (plan : RemovalPlan) : plan.userIds.Pairwise (· ≤ ·) := by
  have htrans : IsTrans ℤ fun a b => a ≤ b := ⟨fun _ _ _ => Int.le_trans⟩
  have htotal : Std.Total fun a b : ℤ => a ≤ b := ⟨Int.le_total⟩
  exact List.pairwise_insertionSort _ _

theorem submissions_eq (plan : RemovalPlan) :
    plan.submissions = (plan.shown.1.map fun entry => entry.2.1).sum := by
  rw [submissions, shown, List.map_map]
  exact ((List.perm_insertionSort _ _).map _).symm.sum_nat

theorem userTests_eq (plan : RemovalPlan) :
    plan.userTests = (plan.shown.1.map fun entry => entry.2.2.1).sum := by
  rw [userTests, shown, List.map_map]
  exact ((List.perm_insertionSort _ _).map _).symm.sum_nat

theorem length_userIds (plan : RemovalPlan) : plan.userIds.length = plan.users.length := by
  rw [userIds, List.length_insertionSort, List.length_map]

theorem mem_shown {plan : RemovalPlan} {entry : RemovalEntry} (h : entry ∈ plan.users) :
    (entry.userId, entry.submissions, entry.userTests, entry.contests) ∈ plan.shown.1 :=
  List.mem_map.2 ⟨entry, (List.perm_insertionSort _ _).mem_iff.2 h, rfl⟩

theorem exists_of_mem_shown {plan : RemovalPlan} {entry : ℤ × Nat × Nat × List String}
    (h : entry ∈ plan.shown.1) :
    ∃ e ∈ plan.users, (e.userId, e.submissions, e.userTests, e.contests) = entry := by
  obtain ⟨e, he, heq⟩ := List.mem_map.1 h
  exact ⟨e, (List.perm_insertionSort _ _).mem_iff.1 he, heq⟩

end RemovalPlan

/-! ## Who is in a plan -/

section Plan

variable {chosen : List (String × Option User)} {participating : List ℤ}

theorem get?_found (start : Dict ℤ User) {id : ℤ} {u : User}
    (h : (chosen.foldl addFound start).get? id = some u) :
    (∃ value, (value, some u) ∈ chosen ∧ u.id = id) ∨ start.get? id = some u := by
  induction chosen generalizing start with
  | nil => exact Or.inr h
  | cons choice rest ih =>
      obtain ⟨value, user⟩ := choice
      rw [List.foldl_cons] at h
      rcases ih _ h with ⟨other, hother, hid⟩ | hstart
      · exact Or.inl ⟨other, List.mem_cons_of_mem _ hother, hid⟩
      · cases user with
        | none => exact Or.inr hstart
        | some v =>
            have hset := Dict.get?_set start v.id v id
            rw [addFound, hset] at hstart
            split at hstart
            · next heq =>
                obtain rfl : v = u := Option.some.inj hstart
                exact Or.inl ⟨value, List.mem_cons_self, heq.symm⟩
            · exact Or.inr hstart

theorem foundUsers_spec {id : ℤ} {u : User} (h : (foundUsers chosen).get? id = some u) :
    ∃ value, (value, some u) ∈ chosen ∧ u.id = id :=
  (get?_found _ h).resolve_right fun hempty => by
    rw [Dict.get?_empty] at hempty
    exact absurd hempty (by simp)

theorem mem_of_chosen {userIds : List ℤ} {usernames : List String} {value : String} {u : User}
    (h : (value, some u) ∈ chosenUsers db userIds usernames) : u ∈ db.users := by
  rcases List.mem_append.1 h with hid | hname
  · obtain ⟨id, -, hpair⟩ := List.mem_map.1 hid
    exact List.mem_of_find?_eq_some (Prod.ext_iff.1 hpair).2
  · obtain ⟨name, -, hpair⟩ := List.mem_map.1 hname
    exact List.mem_of_find?_eq_some (Prod.ext_iff.1 hpair).2

def isChosen (chosen : List (String × Option User)) (id : ℤ) : Bool :=
  chosen.any fun choice => choice.2.any fun u => u.id = id

/-- Sifting takes out who was chosen and does not participate, and nobody else. -/
theorem get?_sifted (state : List (String × String) × Dict ℤ User) (id : ℤ) :
    (chosen.foldl (sift contest participating) state).2.get? id =
      if contest.isSome ∧ id ∉ participating ∧ isChosen chosen id then none
      else state.2.get? id := by
  induction chosen generalizing state with
  | nil => simp [isChosen]
  | cons choice rest ih =>
      obtain ⟨value, user⟩ := choice
      rw [List.foldl_cons, ih]
      cases user with
      | none =>
          have hchosen : isChosen ((value, none) :: rest) id = isChosen rest id := rfl
          rw [hchosen]
          rfl
      | some v =>
          by_cases hout : contest.isSome ∧ v.id ∉ participating
          · have hstep : sift contest participating state (value, some v) =
                (addIgnored state.1 (v.username, "no participa en el concurso"),
                  state.2.erase v.id) := by
              simp [sift, hout]
            rw [hstep, Dict.get?_erase]
            by_cases hid : v.id = id
            · subst hid
              have hgone : contest.isSome ∧ v.id ∉ participating ∧
                  isChosen ((value, some v) :: rest) v.id :=
                ⟨hout.1, hout.2, by simp [isChosen]⟩
              rw [if_pos hgone]
              simp
            · have hchosen : isChosen ((value, some v) :: rest) id = isChosen rest id := by
                simp [isChosen, hid]
              rw [hchosen]
              simp [Ne.symm hid]
          · have hstep : sift contest participating state (value, some v) = state := by
              simp only [sift]
              rw [if_neg]
              simpa using hout
            rw [hstep]
            by_cases hid : v.id = id
            · subst hid
              rw [if_neg fun h => hout ⟨h.1, h.2.1⟩, if_neg fun h => hout ⟨h.1, h.2.1⟩]
            · have hchosen : isChosen ((value, some v) :: rest) id = isChosen rest id := by
                simp [isChosen, hid]
              rw [hchosen]

theorem isChosen_of_mem {value : String} {u : User} (h : (value, some u) ∈ chosen) :
    isChosen chosen u.id := by
  rw [isChosen, List.any_eq_true]
  exact ⟨_, h, by simp⟩

theorem isSome_found (start : Dict ℤ User) (chosen : List (String × Option User)) (id : ℤ) :
    ((chosen.foldl addFound start).get? id).isSome =
      (isChosen chosen id || (start.get? id).isSome) := by
  induction chosen generalizing start with
  | nil => rfl
  | cons choice rest ih =>
      obtain ⟨value, user⟩ := choice
      rw [List.foldl_cons, ih]
      cases user with
      | none => rfl
      | some v =>
          rw [addFound, Dict.get?_set]
          by_cases hid : v.id = id
          · simp [isChosen, hid]
          · have hchosen : isChosen ((value, some v) :: rest) id = isChosen rest id := by
              simp [isChosen, hid]
            rw [hchosen, if_neg (Ne.symm hid)]

theorem isSome_foundUsers (chosen : List (String × Option User)) (id : ℤ) :
    ((foundUsers chosen).get? id).isSome = isChosen chosen id := by
  rw [foundUsers, isSome_found, Dict.get?_empty]
  exact Bool.or_false _

/-- The users that are left of the chosen ones. -/
def planned (db : Database) (contest : Option ℤ) (userIds : List ℤ) (usernames : List String) :
    Dict ℤ User :=
  let chosen := chosenUsers db userIds usernames
  let found := foundUsers chosen
  (chosen.foldl (sift contest ((participationsOf db contest found).map Participation.user))
    ([], found)).2

variable {userIds : List ℤ} {usernames : List String}

theorem planned_spec {id : ℤ} {u : User}
    (h : (planned db contest userIds usernames).get? id = some u) :
    u ∈ db.users ∧ u.id = id ∧ ∀ scope, contest = some scope →
      ∃ p ∈ db.participations, p.contest.id = scope ∧ p.user = id := by
  rw [planned, get?_sifted] at h
  split at h
  · exact absurd h (by simp)
  · next hkept =>
      obtain ⟨value, hmem, hid⟩ := foundUsers_spec h
      refine ⟨mem_of_chosen hmem, hid, ?_⟩
      rintro scope rfl
      by_contra hnobody
      refine hkept ⟨rfl, fun hin => hnobody ?_, hid ▸ isChosen_of_mem hmem⟩
      obtain ⟨p, hp, huser⟩ := List.mem_map.1 hin
      rw [participationsOf, List.mem_filter, Bool.and_eq_true] at hp
      exact ⟨p, hp.1, by simpa [inScope] using hp.2.2, huser⟩

/-- Every user that was found and has a participation in scope is planned. -/
theorem planned_isSome {p : Participation} (hp : p ∈ db.participations) (hin : inScope contest p) :
    ((planned db contest userIds usernames).get? p.user).isSome =
      ((foundUsers (chosenUsers db userIds usernames)).get? p.user).isSome := by
  rw [planned, get?_sifted]
  cases hfound : (foundUsers (chosenUsers db userIds usernames)).get? p.user with
  | none => simp
  | some u =>
      rw [if_neg]
      rintro ⟨-, hnot, -⟩
      refine hnot (List.mem_map.2 ⟨p, ?_, rfl⟩)
      rw [participationsOf, List.mem_filter, hfound]
      exact ⟨hp, by simpa using hin⟩

theorem users_planRemoval (now : ℤ) :
    (planRemoval db contest userIds usernames now).users =
      (((planned db contest userIds usernames).items.map Prod.snd).insertionSort
        fun a b => a.username ≤ b.username).map
          (entryOf db
            (participationsOf db contest (foundUsers (chosenUsers db userIds usernames)))) :=
  rfl

theorem ids_perm (now : ℤ) :
    ((planRemoval db contest userIds usernames now).users.map RemovalEntry.userId).Perm
      (planned db contest userIds usernames).keys := by
  rw [users_planRemoval, List.map_map]
  refine ((List.perm_insertionSort _ _).map _).trans (List.Perm.of_eq ?_)
  rw [List.map_map, Dict.keys]
  refine List.map_congr_left fun item hitem => ?_
  exact (planned_spec (Dict.mem_items_iff.1 hitem)).2.1

theorem userIds_perm (plan : RemovalPlan) :
    plan.userIds.Perm (plan.users.map RemovalEntry.userId) :=
  List.perm_insertionSort _ _

theorem mem_userIds (now : ℤ) {id : ℤ} :
    id ∈ (planRemoval db contest userIds usernames now).userIds ↔
      ((planned db contest userIds usernames).get? id).isSome := by
  rw [((userIds_perm _).trans (ids_perm now)).mem_iff, Dict.mem_keys_iff, Option.isSome_iff_exists]

theorem userIds_nodup (now : ℤ) : (planRemoval db contest userIds usernames now).userIds.Nodup :=
  ((userIds_perm _).trans (ids_perm now)).nodup_iff.2
    (planned db contest userIds usernames).distinct

/-- As many rows are removed as users were planned. -/
theorem count_removed (now : ℤ) :
    (db.remove contest (planRemoval db contest userIds usernames now).userIds).2 =
      (planRemoval db contest userIds usernames now).users.length := by
  have hplanned : ∀ id ∈ (planRemoval db contest userIds usernames now).userIds,
      ∃ u, (planned db contest userIds usernames).get? id = some u :=
    fun id hid => Option.isSome_iff_exists.1 ((mem_userIds now).1 hid)
  rw [← RemovalPlan.length_userIds]
  refine remove_count (userIds_nodup now) ?_ ?_
  · intro id hid
    obtain ⟨u, hu⟩ := hplanned id hid
    exact List.mem_map.2 ⟨u, (planned_spec hu).1, (planned_spec hu).2.1⟩
  · intro id hid
    obtain ⟨u, hu⟩ := hplanned id hid
    exact (planned_spec hu).2.2

/-- A participation is taken if it is one of those that were read for the plan. -/
theorem mem_participationsOf (now : ℤ) {p : Participation} :
    p ∈ participationsOf db contest (foundUsers (chosenUsers db userIds usernames)) ↔
      p ∈ db.participations ∧
        takes contest (planRemoval db contest userIds usernames now).userIds p := by
  rw [participationsOf, List.mem_filter, takes, Bool.and_eq_true, Bool.and_eq_true,
    List.contains_iff_mem, mem_userIds]
  constructor
  · rintro ⟨hp, hfound, hin⟩
    exact ⟨hp, hin, by rw [planned_isSome hp hin]; exact hfound⟩
  · rintro ⟨hp, hin, hplanned⟩
    exact ⟨hp, by rw [← planned_isSome hp hin]; exact hplanned, hin⟩

/-- The counts of the users add up to the rows that the removal takes. -/
theorem sum_countByUser (rows : List Row) (now : ℤ) :
    (((planRemoval db contest userIds usernames now).users.map RemovalEntry.userId).map
      (countByUser db rows ((participationsOf db contest
        (foundUsers (chosenUsers db userIds usernames))).map Participation.id))).sum =
      rows.countP (takesRow db contest (planRemoval db contest userIds usernames now).userIds) := by
  have hnodup : ((planRemoval db contest userIds usernames now).users.map
      RemovalEntry.userId).Nodup := (userIds_perm _).nodup_iff.1 (userIds_nodup now)
  have hinj := List.inj_on_of_nodup_map db.participationIds
  unfold countByUser
  rw [sum_countP]
  · refine List.countP_congr fun row _ => ?_
    rw [takesRow, List.any_eq_true, List.any_eq_true]
    constructor
    · rintro ⟨id, hid, hany⟩
      obtain ⟨p, hp, h⟩ := List.any_eq_true.1 hany
      simp only [Bool.and_eq_true, decide_eq_true_eq, List.contains_iff_mem] at h
      obtain ⟨⟨hrow, hread⟩, -⟩ := h
      obtain ⟨q, hq, hsame⟩ := List.mem_map.1 hread
      obtain ⟨hmem, htaken⟩ := (mem_participationsOf now).1 hq
      obtain rfl := hinj hmem hp hsame
      exact ⟨q, hp, by rw [htaken, decide_eq_true hrow]; rfl⟩
    · rintro ⟨p, hp, h⟩
      rw [Bool.and_eq_true, decide_eq_true_eq] at h
      obtain ⟨htaken, hrow⟩ := h
      -- The participation was read for the plan, so its user counts the row.
      have hread := (mem_participationsOf now).2 ⟨hp, htaken⟩
      rw [takes, Bool.and_eq_true, List.contains_iff_mem] at htaken
      refine ⟨p.user, (userIds_perm _).mem_iff.1 htaken.2, List.any_eq_true.2 ⟨p, hp, ?_⟩⟩
      simp only [Bool.and_eq_true, decide_eq_true_eq, List.contains_iff_mem]
      exact ⟨⟨hrow, List.mem_map.2 ⟨p, hread, rfl⟩⟩, trivial⟩
  · refine hnodup.imp ?_
    rintro a b hne row - ⟨ha, hb⟩
    obtain ⟨p, hp, hpa⟩ := List.any_eq_true.1 ha
    obtain ⟨q, hq, hqb⟩ := List.any_eq_true.1 hb
    simp only [Bool.and_eq_true, decide_eq_true_eq] at hpa hqb
    obtain rfl := hinj hp hq (hpa.1.1.trans hqb.1.1.symm)
    exact hne (hpa.2.symm.trans hqb.2)

theorem submissions_planRemoval (now : ℤ) :
    (planRemoval db contest userIds usernames now).submissions =
      db.submissions.countP
        (takesRow db contest (planRemoval db contest userIds usernames now).userIds) := by
  rw [← sum_countByUser, RemovalPlan.submissions, users_planRemoval]
  simp only [List.map_map]
  rfl

theorem userTests_planRemoval (now : ℤ) :
    (planRemoval db contest userIds usernames now).userTests =
      db.userTests.countP
        (takesRow db contest (planRemoval db contest userIds usernames now).userIds) := by
  rw [← sum_countByUser, RemovalPlan.userTests, users_planRemoval]
  simp only [List.map_map]
  rfl

theorem groups_planRemoval {now : ℤ} {p : Participation} (hp : p ∈ db.participations)
    (htaken : takes contest (planRemoval db contest userIds usernames now).userIds p) :
    p.contest.rankingGroup ∈ (planRemoval db contest userIds usernames now).groups := by
  refine (List.perm_insertionSort _ _).mem_iff.2 (List.mem_dedup.2 (List.mem_map.2 ⟨p, ?_, rfl⟩))
  exact (mem_participationsOf now).2 ⟨hp, htaken⟩

/-- A contest that a user loses is one of those of the entry of the user. -/
theorem contests_planRemoval {now : ℤ} {p : Participation} (hp : p ∈ db.participations)
    (htaken : takes contest (planRemoval db contest userIds usernames now).userIds p) :
    ∃ entry ∈ (planRemoval db contest userIds usernames now).users,
      entry.userId = p.user ∧ p.contest.name ∈ entry.contests := by
  have hread := (mem_participationsOf now).2 ⟨hp, htaken⟩
  rw [takes, Bool.and_eq_true, List.contains_iff_mem] at htaken
  obtain ⟨entry, hentry, hid⟩ := List.mem_map.1 ((userIds_perm _).mem_iff.1 htaken.2)
  refine ⟨entry, hentry, hid, ?_⟩
  rw [users_planRemoval] at hentry
  obtain ⟨u, -, rfl⟩ := List.mem_map.1 hentry
  refine (List.perm_insertionSort _ _).mem_iff.2 (List.mem_dedup.2 (List.mem_map.2 ⟨p, ?_, rfl⟩))
  exact List.mem_filter.2 ⟨hread, decide_eq_true hid.symm⟩

end Plan

end BulkRemove
end Admin
end ContestManagement
