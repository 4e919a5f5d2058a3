import Mathlib.Data.List.Sort
import Mathlib.Data.Rat.Defs
import Mathlib.Algebra.Order.Ring.Unbundled.Rat
import ContestManagement.Lib.Dict
import ContestManagement.Lib.Machine
import ContestManagement.Lib.Standings

/-!
# The ranks on a page

A page ranks its users once, after it has loaded the scores, and from then on it only moves those
that an event concerns.  `DataStore` defines the rank of a user as one more than the number of users
with a greater score; its updates need neither the old score nor a second sort.

A user is deleted without looking at the others: the server has taken back all its scores by then.
-/

namespace ContestManagement
namespace Ranking

open Lib

/-- What a page has of a user: the attributes `global` and `rank`. -/
structure Standing where
  global : ℚ
  rank : ℤ
  deriving DecidableEq

/-- `self.users`. -/
abbrev Users : Type := Dict String Standing

namespace Users

/-- The loop of `init_ranks`, along the users by decreasing score. -/
def assignRanks : Option ℚ → ℤ → ℤ → List (String × Standing) → Users → Users
  | _, _, _, [], users => users
  | prevScore, rank, equal, (key, user) :: list, users =>
      if prevScore = some user.global then
        assignRanks prevScore rank (equal + 1) list (users.set key { user with rank := rank })
      else
        assignRanks (some user.global) (rank + equal) 1 list
          (users.set key { user with rank := rank + equal })

def initRanks (users : Users) : Users :=
  assignRanks none 0 1 (users.items.insertionSort fun a b => b.2.global ≤ a.2.global) users

/-- The rank by definition. -/
def newRank (users : Users) (score : ℚ) : ℤ :=
  1 + users.items.countP fun item => score < item.2.global

/-- A turn of the loop of `update_rank`, for another user or the user itself. -/
def moved (newScore : ℚ) (oldRank : ℤ) (user2 : Standing) : Standing :=
  if user2.rank ≤ oldRank ∧ user2.global < newScore then { user2 with rank := user2.rank + 1 }
  else if newScore ≤ user2.global ∧ oldRank < user2.rank then { user2 with rank := user2.rank - 1 }
  else user2

/-- `update_rank`, after the score of the user has changed. -/
def updateRank (users : Users) (key : String) (user : Standing) : Users :=
  (users.mapValues (moved user.global user.rank)).set key
    ⟨user.global, newRank users user.global⟩

/-- `create_user` with the callbacks that set the score and the rank. -/
def createUser (users : Users) (key : String) : Users :=
  -- The rank is not there yet, and nothing reads it.
  let created : Users := users.set key ⟨0, 0⟩
  created.set key ⟨0, newRank created 0⟩

end Users

/-- What happens to the users of a page. -/
inductive PageEvent
  | create (key : String)
  | update (key : String)
  | delete (key : String)
  | score (key : String) (global : ℚ)

namespace Users

/-- What the page does; without the user the callbacks raise. -/
def step (users : Users) : PageEvent → Option Users
  | .create key => some (users.createUser key)
  | .update key => (users.get? key).map fun old => users.set key ⟨old.global, old.rank⟩
  | .delete key => (users.get? key).map fun _ => users.erase key
  | .score key global => (users.get? key).map fun user =>
      updateRank (users.set key { user with global := global }) key { user with global := global }

/-- The scores on the page. -/
def scores (users : Users) : List ℚ := users.items.map fun item => item.2.global

/-- Every rank is what it is by definition. -/
def RanksRight (users : Users) : Prop :=
  ∀ key user, users.get? key = some user → user.rank = place users.scores user.global

end Users

/-- A page after its ranks were set up; the server gives no negative scores. -/
def pageMachine : Machine Users PageEvent where
  init users := ∃ loaded : Users, (∀ s ∈ loaded.scores, 0 ≤ s) ∧ users = loaded.initRanks
  step := Users.step

/-- What a live page is told: a user is created once, and deleted when it has no score left.  A page
whose score events are held back is not told that its scores are gone. -/
def Told (users : Users) : PageEvent → Prop
  | .create key => users.get? key = none
  | .update _ => True
  | .delete key => ∀ user ∈ users.get? key, user.global = 0
  | .score _ global => 0 ≤ global

instance (users : Users) (e : PageEvent) : Decidable (Told users e) :=
  match e with
  | .create key => inferInstanceAs (Decidable (users.get? key = none))
  | .update _ => inferInstanceAs (Decidable True)
  | .delete key => inferInstanceAs (Decidable (∀ user ∈ users.get? key, user.global = 0))
  | .score _ global => inferInstanceAs (Decidable (0 ≤ global))

namespace Users

variable {users users' : Users} {key : String} {user : Standing}

theorem newRank_eq (users : Users) (score : ℚ) : newRank users score = place users.scores score := by
  rw [newRank, place, scores, List.countP_map]
  rfl

/-! ## The scores after a change -/

/-- A user that is replaced. -/
theorem scores_set (h : users.get? key = some user) (new : Standing) :
    ∃ others, users.scores.Perm (user.global :: others) ∧
      (Users.scores (users.set key new)).Perm (new.global :: others) := by
  obtain ⟨before, after, hitems, hset⟩ := Dict.items_set_of_get? h new
  refine ⟨(before ++ after).map fun item => item.2.global, ?_, ?_⟩
  · rw [scores, hitems]
    exact (List.perm_middle).map _
  · rw [scores, hset]
    exact (List.perm_middle).map _

theorem scores_set_of_none (h : users.get? key = none) (new : Standing) :
    Users.scores (users.set key new) = users.scores ++ [new.global] := by
  rw [scores, Dict.items_set_of_none h, List.map_append]
  rfl

theorem scores_mapValues {f : Standing → Standing} (hf : ∀ user, (f user).global = user.global)
    (users : Users) : Users.scores (users.mapValues f) = users.scores := by
  simp [scores, Dict.mapValues, Function.comp_def, hf]

theorem scores_erase (h : users.get? key = some user) :
    users.scores.Perm (user.global :: Users.scores (users.erase key)) := by
  have hnone : Dict.get? (users.erase key) key = none := by rw [Dict.get?_erase, if_pos rfl]
  have hsame : ∀ other, users.get? other = Dict.get? ((users.erase key).set key user) other := by
    intro other
    rw [Dict.get?_set, Dict.get?_erase]
    by_cases heq : other = key
    · rw [if_pos heq, heq, h]
    · rw [if_neg heq, if_neg heq]
  have hperm := (Dict.perm_of_get? hsame).map fun item => item.2.global
  have hitems : Users.scores ((users.erase key).set key user) =
      Users.scores (users.erase key) ++ [user.global] := scores_set_of_none hnone user
  have hperm' : users.scores.Perm (Users.scores (users.erase key) ++ [user.global]) := by
    rw [← hitems]
    exact hperm
  exact hperm'.trans (List.perm_append_singleton _ _)

/-! ## What each event keeps -/

/-- The ranks are right and no score is negative. -/
structure Ranked (users : Users) : Prop where
  right : users.RanksRight
  nonneg : ∀ s ∈ users.scores, 0 ≤ s

/-- A user without points comes behind nobody that it has not been behind. -/
theorem Ranked.createUser (h : users.Ranked) (hnew : users.get? key = none) :
    (users.createUser key).Ranked := by
  have hcreated : Dict.get? (users.set key ⟨0, 0⟩) key = some ⟨0, 0⟩ := by
    rw [Dict.get?_set, if_pos rfl]
  obtain ⟨others, hbefore, hafter⟩ :=
    scores_set hcreated ⟨0, newRank (users.set key ⟨0, 0⟩) 0⟩
  have hscores : (users.createUser key).scores.Perm (users.scores ++ [0]) := by
    rw [← scores_set_of_none hnew ⟨0, 0⟩]
    exact hafter.trans hbefore.symm
  refine ⟨fun other user hget => ?_, fun s hs => ?_⟩
  · rw [place_perm hscores]
    unfold Users.createUser at hget
    rw [Dict.get?_set] at hget
    split at hget
    case isTrue =>
      cases hget
      rw [newRank_eq, scores_set_of_none hnew]
    case isFalse hne =>
      rw [Dict.get?_set, if_neg hne] at hget
      have hmem : user.global ∈ users.scores :=
        List.mem_map.2 ⟨(other, user), Dict.mem_items_iff.2 hget, rfl⟩
      rw [place_append_le fun b hb => (List.mem_singleton.1 hb).trans_le (h.nonneg _ hmem)]
      exact h.right other user hget
  · rcases List.mem_append.1 (hscores.mem_iff.1 hs) with hs | hs
    · exact h.nonneg s hs
    · exact (List.mem_singleton.1 hs).ge

theorem Ranked.deleteUser (h : users.Ranked) (hget : users.get? key = some user)
    (hzero : user.global = 0) : Users.Ranked (users.erase key) := by
  have hscores := scores_erase hget
  have hnonneg : ∀ s ∈ Users.scores (users.erase key), 0 ≤ s := fun s hs =>
    h.nonneg s (hscores.mem_iff.2 (List.mem_cons_of_mem _ hs))
  refine ⟨fun other left hother => ?_, hnonneg⟩
  have hmem : left.global ∈ Users.scores (users.erase key) :=
    List.mem_map.2 ⟨(other, left), Dict.mem_items_iff.2 hother, rfl⟩
  rw [Dict.get?_erase] at hother
  split at hother
  case isTrue => cases hother
  case isFalse =>
    have hright := h.right other left hother
    rw [place_perm hscores, place_cons, hzero, if_neg (not_lt.2 (hnonneg _ hmem))] at hright
    omega

/-- The updates of the ranks agree with their definition: the old ranks alone tell which of the other
users move. -/
theorem Ranked.updateRank (h : users.Ranked) (hget : users.get? key = some user) {new : ℚ}
    (hnew : 0 ≤ new) :
    Users.Ranked (Users.updateRank (users.set key { user with global := new }) key
      { user with global := new }) := by
  obtain ⟨others, hbefore, hafter⟩ := scores_set hget { user with global := new }
  have hglobal : ∀ user2, (moved new user.rank user2).global = user2.global := by
    intro user2
    unfold moved
    split
    case isTrue => rfl
    case isFalse =>
      split
      case isTrue => rfl
      case isFalse => rfl
  have hmoved : Dict.get? (Dict.mapValues (moved new user.rank)
      (users.set key { user with global := new })) key =
        some (moved new user.rank { user with global := new }) := by
    rw [Dict.get?_mapValues, Dict.get?_set, if_pos rfl]
    rfl
  have hscores : (Users.scores (Users.updateRank (users.set key { user with global := new }) key
      { user with global := new })).Perm (new :: others) := by
    obtain ⟨rest, hrest, hset⟩ := scores_set hmoved
      ⟨new, newRank (users.set key { user with global := new }) new⟩
    rw [hglobal, scores_mapValues hglobal] at hrest
    exact hset.trans (hrest.symm.trans hafter)
  have hold := h.right key user hget
  rw [place_perm hbefore] at hold
  refine ⟨fun other user2 hother => ?_, fun s hs => ?_⟩
  · rw [place_perm hscores]
    unfold Users.updateRank at hother
    rw [Dict.get?_set] at hother
    split at hother
    case isTrue =>
      cases hother
      rw [newRank_eq, place_perm hafter]
    case isFalse hne =>
      rw [Dict.get?_mapValues, Dict.get?_set, if_neg hne, Option.map_eq_some_iff] at hother
      obtain ⟨before, hgetOther, rfl⟩ := hother
      have hright := h.right other before hgetOther
      rw [place_perm hbefore] at hright
      rw [hglobal, place_changed others user.global new before.global, ← hright, ← hold]
      unfold moved
      split
      case isTrue => rfl
      case isFalse =>
        split
        case isTrue => rfl
        case isFalse => rfl
  · rcases List.mem_cons.1 (hscores.mem_iff.1 hs) with rfl | hs
    · exact hnew
    · exact h.nonneg s (hbefore.mem_iff.2 (List.mem_cons_of_mem _ hs))

/-! ## The first ranks -/

/-- The loop gives out the places along the list. -/
theorem assignRanks_eq (list : List (String × Standing)) (prevScore : Option ℚ) (rank equal : ℤ)
    (users : Users) :
    assignRanks prevScore rank equal list users =
      (list.zip (assignPlaces prevScore rank equal (list.map fun item => item.2.global))).foldl
        (fun users item => users.set item.1.1 { item.1.2 with rank := item.2 }) users := by
  induction list generalizing prevScore rank equal users with
  | nil => rfl
  | cons item rest ih =>
      unfold assignRanks
      rw [List.map_cons]
      unfold assignPlaces
      split
      case isTrue => rw [ih, List.zip_cons_cons, List.foldl_cons]
      case isFalse => rw [ih, List.zip_cons_cons, List.foldl_cons]

/-- A user with the rank by definition among some scores. -/
def placed (scores : List ℚ) (user : Standing) : Standing :=
  { user with rank := place scores user.global }

theorem initRanks_get? (users : Users) (key : String) :
    users.initRanks.get? key = (users.get? key).map (placed users.scores) := by
  let sorted := users.items.insertionSort fun a b => b.2.global ≤ a.2.global
  have hperm : sorted.Perm users.items := List.perm_insertionSort _ _
  have hscores : (sorted.map fun item => item.2.global).Perm users.scores := hperm.map _
  have hsorted : (sorted.map fun item => item.2.global).Pairwise fun a b => b ≤ a := by
    rw [List.pairwise_map]
    exact List.pairwise_insertionSort _ _
  have hplaces := assignPlaces_eq assigned_start hsorted
  rw [List.nil_append, funext (place_perm hscores)] at hplaces
  have hdistinct :
      ((sorted.map fun item => (item.1, placed users.scores item.2)).map Prod.fst).Nodup := by
    rw [List.map_map]
    exact (hperm.map Prod.fst).nodup_iff.2 users.distinct
  -- The loop sets each user once, so it updates the users with what it gives out.
  have hloop : users.initRanks =
      Dict.update users ⟨sorted.map fun item => (item.1, placed users.scores item.2), hdistinct⟩ := by
    show assignRanks none 0 1 sorted users = _
    rw [assignRanks_eq, hplaces, Dict.update, List.map_map, ← List.map_prod_left_eq_zip,
      List.foldl_map, List.foldl_map]
    rfl
  have hplaced : Dict.get? (⟨sorted.map fun item => (item.1, placed users.scores item.2),
      hdistinct⟩ : Users) key = (users.get? key).map (placed users.scores) := by
    rw [← Dict.get?_mapValues]
    exact Dict.get?_eq_of_perm (hperm.map _) key
  rw [hloop, Dict.get?_update, hplaced]
  cases users.get? key with
  | none => rfl
  | some user => rfl

theorem initRanks_ranked (hnonneg : ∀ s ∈ users.scores, 0 ≤ s) : users.initRanks.Ranked := by
  have hscores : users.initRanks.scores.Perm users.scores := by
    have hsame : ∀ key, users.initRanks.get? key =
        Dict.get? (users.mapValues (placed users.scores)) key := by
      intro key
      rw [initRanks_get?, Dict.get?_mapValues]
    rw [← scores_mapValues (f := placed users.scores) (fun _ => rfl) users]
    exact (Dict.perm_of_get? hsame).map fun item => item.2.global
  refine ⟨fun key user hget => ?_, fun s hs => hnonneg s (hscores.mem_iff.1 hs)⟩
  rw [initRanks_get?, Option.map_eq_some_iff] at hget
  obtain ⟨loaded, -, rfl⟩ := hget
  rw [place_perm hscores]
  rfl

theorem ranked_step {e : PageEvent} (h : users.Ranked) (htold : Told users e)
    (hstep : users.step e = some users') : users'.Ranked := by
  cases e with
  | create key =>
      obtain rfl := Option.some.inj hstep
      exact h.createUser htold
  | update key =>
      obtain ⟨old, hold, rfl⟩ := Option.map_eq_some_iff.1 hstep
      rw [Dict.set_eq_self hold]
      exact h
  | delete key =>
      obtain ⟨user, huser, rfl⟩ := Option.map_eq_some_iff.1 hstep
      exact h.deleteUser huser (htold user huser)
  | score key global =>
      obtain ⟨user, huser, rfl⟩ := Option.map_eq_some_iff.1 hstep
      exact h.updateRank huser htold

end Users

/-- On every live page the ranks are right at any time, and so they put the users in the order of
their scores. -/
theorem page_ranks_right {users : Users} (h : pageMachine.ReachableVia Told users) :
    users.RanksRight ∧ ∀ key other a b, users.get? key = some a → users.get? other = some b →
      (a.global < b.global ↔ b.rank < a.rank) := by
  have hranked : users.Ranked := by
    refine Machine.ReachableVia.invariant (I := Users.Ranked) ?_ ?_ h
    · rintro users ⟨loaded, hnonneg, rfl⟩
      exact Users.initRanks_ranked hnonneg
    · intro s e t hs htold hstep
      exact Users.ranked_step hs htold hstep
  refine ⟨hranked.right, fun key other a b ha hb => ?_⟩
  rw [hranked.right key a ha, hranked.right other b hb]
  have hmem : b.global ∈ users.scores := List.mem_map.2 ⟨(other, b), Dict.mem_items_iff.2 hb, rfl⟩
  obtain ⟨before, after, hsplit⟩ := List.append_of_mem hmem
  have hperm : users.scores.Perm (b.global :: (before ++ after)) := by
    rw [hsplit]
    exact List.perm_middle
  rw [place_perm hperm, place_perm hperm]
  have hlevel := place_le_iff (before ++ after) a.global b.global
  constructor
  · intro hlt
    exact not_le.1 (mt hlevel.1 (not_le.2 hlt))
  · intro hlt
    exact not_le.1 (mt hlevel.2 (not_le.2 hlt))

/-- A page of two users, after one more came and one of the first was deleted. -/
def livePage : Users :=
  (pageMachine.execVia Told (Users.initRanks ⟨[("a", ⟨5, 0⟩), ("b", ⟨3, 0⟩)], by decide⟩)
    [.create "c", .score "c" 4, .score "a" 0, .delete "a"]).get (by decide +kernel)

theorem page_ranks_right_live :
    livePage.get? "b" = some ⟨3, 2⟩ ∧ livePage.RanksRight ∧ ((3 : ℚ) < 4 ↔ (1 : ℤ) < 2) := by
  have hreachable : pageMachine.ReachableVia Told livePage := by
    refine ⟨_, ⟨_, ?_, rfl⟩, Machine.path_of_execVia (Option.some_get _).symm⟩
    decide +kernel
  obtain ⟨hright, horder⟩ := page_ranks_right hreachable
  exact ⟨by decide +kernel, hright,
    horder "b" "c" ⟨3, 2⟩ ⟨4, 1⟩ (by decide +kernel) (by decide +kernel)⟩

end Ranking
end ContestManagement
