import Mathlib.Data.Int.Order.Basic
import Mathlib.Data.List.Count
import Mathlib.Data.List.Perm.Basic
import Mathlib.Order.Lattice
import Mathlib.Tactic.Common

/-!
# Places in a ranking with ties

The place of a value among others is one more than the number of greater ones.  When one of the
values changes, the places of the others move by at most one, and the places before the change tell
which of them move.
-/

namespace ContestManagement
namespace Lib

variable {α : Type} [LinearOrder α]

/-- One more than the number of greater values. -/
def place (values : List α) (a : α) : ℤ := 1 + values.countP fun b => a < b

theorem place_perm {values others : List α} (h : values.Perm others) (a : α) :
    place values a = place others a := by
  rw [place, place, h.countP_eq]

theorem place_append (first second : List α) (a : α) :
    place (first ++ second) a = place first a + second.countP fun b => a < b := by
  rw [place, place, List.countP_append]
  push_cast
  omega

theorem place_cons (b : α) (values : List α) (a : α) :
    place (b :: values) a = place values a + if a < b then 1 else 0 := by
  rw [place, place, List.countP_cons]
  simp only [decide_eq_true_eq]
  push_cast
  split <;> omega

/-- A greater value has no greater place. -/
theorem place_anti (values : List α) {a b : α} (h : a ≤ b) : place values b ≤ place values a := by
  have hcount : (values.countP fun c => b < c) ≤ values.countP fun c => a < c := by
    apply List.countP_mono_left
    intro c _ hc
    simp only [decide_eq_true_eq] at hc ⊢
    exact h.trans_lt hc
  unfold place
  omega

/-- Among values with `b` itself, a value is in front of `b` or level with it when it is at least
`b`. -/
theorem place_le_iff (values : List α) (a b : α) :
    place (b :: values) a ≤ place (b :: values) b ↔ b ≤ a := by
  constructor
  · intro hplace
    by_contra hlt
    have hlt' : a < b := not_le.1 hlt
    rw [place_cons, place_cons, if_pos hlt', if_neg (lt_irrefl b)] at hplace
    have hmono := place_anti values hlt'.le
    omega
  · exact place_anti (b :: values)

/-- The place of a value after another one has changed from `old` to `new`, from the places
before. -/
theorem place_changed (values : List α) (old new a : α) :
    place (new :: values) a =
      if place (old :: values) a ≤ place (old :: values) old ∧ a < new then
        place (old :: values) a + 1
      else if new ≤ a ∧ place (old :: values) old < place (old :: values) a then
        place (old :: values) a - 1
      else place (old :: values) a := by
  have hlevel := place_le_iff values a old
  by_cases hold : a < old
  · have hbehind : place (old :: values) old < place (old :: values) a :=
      not_le.1 (mt hlevel.1 (not_le.2 hold))
    rw [if_neg fun h => absurd h.1 (not_le.2 hbehind)]
    by_cases hnew : a < new
    · rw [if_neg fun h => absurd h.1 (not_le.2 hnew), place_cons, place_cons, if_pos hnew,
        if_pos hold]
    · rw [if_pos ⟨not_lt.1 hnew, hbehind⟩, place_cons, place_cons, if_neg hnew, if_pos hold]
      omega
  · have hfront : place (old :: values) a ≤ place (old :: values) old := hlevel.2 (not_lt.1 hold)
    by_cases hnew : a < new
    · rw [if_pos ⟨hfront, hnew⟩, place_cons, place_cons, if_pos hnew, if_neg hold]
      omega
    · rw [if_neg fun h => hnew h.2, if_neg fun h => absurd hfront (not_le.2 h.2), place_cons,
        place_cons, if_neg hnew, if_neg hold]

/-! ## Places along a descending list -/

/-- Give out places along a list: a value that differs from the one before it comes behind all the
values so far. -/
def assignPlaces : Option α → ℤ → ℤ → List α → List ℤ
  | _, _, _, [] => []
  | prev, rank, equal, a :: rest =>
      if prev = some a then rank :: assignPlaces prev rank (equal + 1) rest
      else (rank + equal) :: assignPlaces (some a) (rank + equal) 1 rest

theorem place_of_all_greater {values : List α} {a : α} (h : ∀ b ∈ values, a < b) :
    place values a = 1 + values.length := by
  rw [place, List.countP_eq_length.2 fun b hb => decide_eq_true (h b hb)]

/-- What comes behind a value in a descending list is not greater. -/
theorem place_append_le {first second : List α} {a : α} (h : ∀ b ∈ second, b ≤ a) :
    place (first ++ second) a = place first a := by
  have hnone : (second.countP fun b => a < b) = 0 := by
    rw [List.countP_eq_zero]
    intro b hb
    simp only [decide_eq_true_eq, not_lt]
    exact h b hb
  rw [place_append, hnone]
  omega

/-- The invariant of the loop: the values so far, the last of them and the number of values that
are level with it. -/
structure Assigned (done : List α) (prev : Option α) (rank equal : ℤ) : Prop where
  count : rank + equal = 1 + done.length
  start : prev = none → done = []
  last : ∀ p, prev = some p → rank = place done p ∧ p ∈ done ∧ ∀ b ∈ done, p ≤ b

theorem assigned_start : Assigned ([] : List α) none 0 1 :=
  ⟨rfl, fun _ => rfl, fun _ hp => by cases hp⟩

theorem assignPlaces_eq {done values : List α} {prev : Option α} {rank equal : ℤ}
    (h : Assigned done prev rank equal) (hsorted : (done ++ values).Pairwise fun a b => b ≤ a) :
    assignPlaces prev rank equal values = values.map (place (done ++ values)) := by
  induction values generalizing done prev rank equal with
  | nil => rfl
  | cons a rest ih =>
      have hsplit := List.pairwise_append.1 hsorted
      have hbefore : ∀ b ∈ done, a ≤ b := fun b hb => hsplit.2.2 b hb a List.mem_cons_self
      have hbehind : ∀ b ∈ a :: rest, b ≤ a := by
        intro b hb
        rcases List.mem_cons.1 hb with rfl | hb
        · exact le_rfl
        · exact (List.pairwise_cons.1 hsplit.2.1).1 b hb
      have hplace : place (done ++ a :: rest) a = place done a := place_append_le hbehind
      have hnext : done ++ a :: rest = (done ++ [a]) ++ rest := by simp
      have hself : place (done ++ [a]) a = place done a :=
        place_append_le fun b hb => (List.mem_singleton.1 hb).le
      have hlast : ∀ b ∈ done ++ [a], a ≤ b := by
        intro b hb
        rcases List.mem_append.1 hb with hb | hb
        · exact hbefore b hb
        · exact (List.mem_singleton.1 hb).ge
      have hlength : ((done ++ [a]).length : ℤ) = done.length + 1 := by simp
      have hcount := h.count
      unfold assignPlaces
      split
      case isTrue hsame =>
        have hrank := (h.last a hsame).1
        have hassigned : Assigned (done ++ [a]) prev rank (equal + 1) := by
          refine ⟨by omega, fun hnone => ?_, fun p hp => ?_⟩
          · rw [hnone] at hsame
            cases hsame
          · rw [hsame, Option.some.injEq] at hp
            subst hp
            exact ⟨by rw [hself, hrank], by simp, hlast⟩
        rw [List.map_cons, hplace, ih hassigned (hnext ▸ hsorted), hnext, hrank]
      case isFalse hdiffers =>
        -- All the values so far are greater.
        have hall : ∀ b ∈ done, a < b := by
          intro b hb
          cases hprev : prev with
          | none =>
              rw [h.start hprev] at hb
              cases hb
          | some p =>
              obtain ⟨-, hp, hleast⟩ := h.last p hprev
              refine lt_of_le_of_ne (hbefore b hb) ?_
              rintro rfl
              exact hdiffers (by rw [hprev, le_antisymm (hleast a hb) (hbefore p hp)])
        have hrank : rank + equal = place done a := by
          rw [place_of_all_greater hall, hcount]
        have hassigned : Assigned (done ++ [a]) (some a) (rank + equal) 1 := by
          refine ⟨by omega, ?_, fun p hp => ?_⟩
          · intro hnone
            cases hnone
          · cases hp
            exact ⟨by rw [hself, hrank], by simp, hlast⟩
        rw [List.map_cons, hplace, ih hassigned (hnext ▸ hsorted), hnext, hrank]

end Lib
end ContestManagement
