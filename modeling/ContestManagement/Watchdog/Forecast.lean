import Mathlib.Order.Bounds.Basic
import ContestManagement.Lib.Binary64
import ContestManagement.Watchdog.Budgets

/-!
# The forecast of the budgets

`free_at` tells from when on an action is allowed.  A booking leaves the budgets when its age reaches
an hour, so with no further bookings an action that the budgets hold is allowed once the oldest of
the last bookings of each full limit has left.  `free_at` adds the hour to the time of that booking.
The sum and the age are floating-point numbers: where the sum is rounded, the age may reach an hour
at another number than the sum.

While the budgets of a ledger that did not parse count as exhausted, `free_at` answers the end of
that time without a look at the bookings.
-/

namespace ContestManagement
namespace Watchdog

open Lib

namespace Ledger

variable {round : ℚ → ℚ} {IsNumber : ℚ → Prop} {l : Ledger} {program : String} {pool : Pool}
  {action : Action} {shadow : Bool} {wall now : ℚ}

/-- The budgets do not count as exhausted. -/
def ExhaustionOver (l : Ledger) (wall : ℚ) : Prop :=
  ∀ stop, l.exhaustedUntil = some stop → stop ≤ wall

/-- The bookings that pass a test and are less than an hour old. -/
def recentOnes (round : ℚ → ℚ) (wall : ℚ) (test : Booking → Bool) (entries : List Booking) :
    List Booking :=
  entries.filter fun b => test b && isRecent round wall b.wall

/-- The bookings leave room for an action. -/
def LeavesRoom (round : ℚ → ℚ) (entries : List Booking) (program : String) (pool : Pool)
    (wall : ℚ) : Action → Prop
  | .restart =>
      (recentOnes round wall (Booking.isOf program .restart) entries).length < programBudget ∧
        (recentOnes round wall (Booking.isIn pool .restart) entries).length < poolBudget
  | .start =>
      (recentOnes round wall (Booking.isOf program .start) entries).length < fatalProgramBudget

/-- The budgets allow an action. -/
def Allows (round : ℚ → ℚ) (l : Ledger) (program : String) (pool : Pool) (action : Action)
    (shadow : Bool) (wall : ℚ) : Prop :=
  l.ExhaustionOver wall ∧ LeavesRoom round (l.bookings shadow) program pool wall action

/-- The last booking that has to leave before the bookings leave room for an action. -/
def awaited (round : ℚ → ℚ) (entries : List Booking) (program : String) (pool : Pool) (wall : ℚ) :
    Action → Option ℚ
  | .restart => laterTime
      (lastToLeave (recentOnes round wall (Booking.isOf program .restart) entries) programBudget)
      (lastToLeave (recentOnes round wall (Booking.isIn pool .restart) entries) poolBudget)
  | .start =>
      lastToLeave (recentOnes round wall (Booking.isOf program .start) entries) fatalProgramBudget

/-- The forecast at a time: `free_at` has none when the budgets allow the action, and otherwise gives
the first number at which, with no further bookings, it will have none. -/
def ForecastExact (round : ℚ → ℚ) (IsNumber : ℚ → Prop) (l : Ledger) (program : String)
    (pool : Pool) (action : Action) (shadow : Bool) (wall : ℚ) : Prop :=
  (l.freeAt round program pool action shadow wall = none ↔
      l.Allows round program pool action shadow wall) ∧
    ∀ t, l.freeAt round program pool action shadow wall = some t →
      IsLeast {now | IsNumber now ∧ wall ≤ now ∧
        l.freeAt round program pool action shadow now = none} t

/-- The age of a booking reaches the window at the sum of the two, and at no number before it. -/
def LeavesAtSum (round : ℚ → ℚ) (IsNumber : ℚ → Prop) (booked : ℚ) : Prop :=
  IsLeast {now | IsNumber now ∧ budgetWindowS ≤ age round now booked}
    (round (booked + budgetWindowS))

/-! ## Ages -/

theorem isRecent_iff {wall booked : ℚ} :
    isRecent round wall booked = true ↔ age round wall booked < budgetWindowS := by
  rw [isRecent, decide_eq_true_eq]

/-! ## The later one of two times -/

theorem forall_laterTime {P : ℚ → Prop} (hP : ∀ a b, a ≤ b → P b → P a) {first second : Option ℚ} :
    (∀ t ∈ laterTime first second, P t) ↔ (∀ t ∈ first, P t) ∧ ∀ t ∈ second, P t := by
  cases first with
  | none => simp [laterTime]
  | some a =>
      cases second with
      | none => simp [laterTime]
      | some b =>
          simp only [laterTime, Option.mem_def, Option.some.injEq, forall_eq']
          refine ⟨fun h => ⟨hP a _ (le_max_left a b) h, hP b _ (le_max_right a b) h⟩, ?_⟩
          rintro ⟨ha, hb⟩
          rcases max_choice a b with hmax | hmax
          · rwa [hmax]
          · rwa [hmax]

theorem map_laterTime {f : ℚ → ℚ} (hf : Monotone f) (first second : Option ℚ) :
    laterTime (first.map f) (second.map f) = (laterTime first second).map f := by
  cases first with
  | none => rfl
  | some a =>
      cases second with
      | none => rfl
      | some b => exact congrArg some (hf.map_max).symm

theorem mem_of_laterTime {first second : Option ℚ} {t : ℚ} (h : t ∈ laterTime first second) :
    t ∈ first ∨ t ∈ second := by
  cases first with
  | none => exact Or.inr h
  | some a =>
      cases second with
      | none => exact Or.inl h
      | some b =>
          rw [laterTime, Option.mem_def, Option.some.injEq] at h
          rcases max_choice a b with hmax | hmax
          · exact Or.inl (congrArg some (hmax.symm.trans h))
          · exact Or.inr (congrArg some (hmax.symm.trans h))

/-! ## What is awaited -/

theorem mem_of_lastToLeave {entries : List Booking} {limit : ℕ} {booked : ℚ}
    (h : booked ∈ lastToLeave entries limit) : ∃ b ∈ entries, b.wall = booked := by
  unfold lastToLeave at h
  split at h
  case isTrue =>
    have hmem := List.mem_of_getElem? h
    rw [List.mem_insertionSort, List.mem_map] at hmem
    exact hmem
  case isFalse => cases h

/-- What is awaited is recent. -/
theorem age_lt_of_awaited {entries : List Booking} {booked : ℚ}
    (h : booked ∈ awaited round entries program pool wall action) :
    age round wall booked < budgetWindowS := by
  have hlimit : ∀ (test : Booking → Bool) (limit : ℕ),
      booked ∈ lastToLeave (recentOnes round wall test entries) limit →
        age round wall booked < budgetWindowS := by
    intro test limit hmem
    obtain ⟨b, hb, rfl⟩ := mem_of_lastToLeave hmem
    have htest := List.of_mem_filter hb
    rw [Bool.and_eq_true] at htest
    exact isRecent_iff.1 htest.2
  cases action with
  | restart => exact (mem_of_laterTime h).elim (hlimit _ _) (hlimit _ _)
  | start => exact hlimit _ _ h

/-! ## Exhausted budgets -/

theorem exists_of_not_over (h : ¬ l.ExhaustionOver wall) :
    ∃ stop, l.exhaustedUntil = some stop ∧ wall < stop := by
  unfold ExhaustionOver at h
  push Not at h
  exact h

theorem freeAt_of_exhausted {stop : ℚ} (hstop : l.exhaustedUntil = some stop) (h : wall < stop) :
    l.freeAt round program pool action shadow wall = some stop := by
  have hfilter : (l.exhaustedUntil.filter fun stop => wall < stop) = some stop := by
    rw [hstop, Option.filter_some, if_pos (decide_eq_true h)]
  unfold freeAt
  rw [hfilter]

section Monotone

variable (hround : Monotone round)

include hround

/-- What is not recent now is not recent later, nor is anything that was booked before it. -/
theorem age_mono {booked booked' : ℚ} (hnow : wall ≤ now) (hbooked : booked' ≤ booked) :
    age round wall booked ≤ age round now booked' :=
  max_le_max le_rfl (hround (sub_le_sub hnow hbooked))

theorem isRecent_of_later {booked booked' : ℚ} (hnow : wall ≤ now) (hbooked : booked' ≤ booked)
    (h : isRecent round now booked' = true) : isRecent round wall booked = true := by
  rw [isRecent_iff] at h ⊢
  exact (age_mono hround hnow hbooked).trans_lt h

theorem recentOnes_recentOnes (hle : wall ≤ now) (test : Booking → Bool) (entries : List Booking) :
    (recentOnes round wall test entries).filter (fun b => isRecent round now b.wall) =
      recentOnes round now test entries := by
  unfold recentOnes
  rw [List.filter_filter]
  refine List.filter_congr fun b _ => ?_
  by_cases hlater : isRecent round now b.wall = true
  · rw [hlater, isRecent_of_later hround hle le_rfl hlater, Bool.true_and]
  · rw [Bool.not_eq_true] at hlater
    rw [hlater, Bool.false_and, Bool.and_false]

/-! ## One limit -/

/-- With no further bookings a limit has room once the booking that has to leave is not recent. -/
theorem length_recentOnes_lt_iff (entries : List Booking) (test : Booking → Bool) {limit : ℕ}
    (hlimit : 0 < limit) (hle : wall ≤ now) :
    (recentOnes round now test entries).length < limit ↔
      ∀ booked ∈ lastToLeave (recentOnes round wall test entries) limit,
        budgetWindowS ≤ age round now booked := by
  rw [← recentOnes_recentOnes hround hle test entries]
  generalize recentOnes round wall test entries = counted
  unfold lastToLeave
  split
  case isTrue hfull =>
    -- The times in their order are recent as often as the bookings.
    generalize hwalls : (counted.map Booking.wall).insertionSort (· ≤ ·) = walls
    have hperm : walls.Perm (counted.map Booking.wall) := hwalls ▸ List.perm_insertionSort _ _
    have hsorted : walls.Pairwise (· ≤ ·) := hwalls ▸ List.pairwise_insertionSort _ _
    have hlength : walls.length = counted.length := by rw [hperm.length_eq, List.length_map]
    have hcount : (counted.filter fun b => isRecent round now b.wall).length =
        (walls.filter (isRecent round now)).length := by
      rw [(hperm.filter _).length_eq, List.filter_map, List.length_map]
      rfl
    have hindex : walls.length - limit < walls.length := by omega
    have hx : walls[walls.length - limit]? = some walls[walls.length - limit] :=
      List.getElem?_eq_getElem hindex
    have hlater : walls.Pairwise fun x y => isRecent round now x = true → isRecent round now y = true :=
      hsorted.imp fun hxy => isRecent_of_later hround le_rfl hxy
    dsimp only
    rw [hcount, length_filter_lt_iff hlater (by omega) hx, hx, ← Bool.not_eq_true, isRecent_iff]
    simp
  case isFalse hroom =>
    have hcount : (counted.filter fun b => isRecent round now b.wall).length ≤ counted.length :=
      List.length_filter_le ..
    have hfew : (counted.filter fun b => isRecent round now b.wall).length < limit := by omega
    simp [hfew]

/-! ## The budgets -/

theorem leavesRoom_iff (entries : List Booking) (hle : wall ≤ now) :
    LeavesRoom round entries program pool now action ↔
      ∀ booked ∈ awaited round entries program pool wall action,
        budgetWindowS ≤ age round now booked := by
  cases action with
  | restart =>
      unfold LeavesRoom awaited
      rw [length_recentOnes_lt_iff hround _ _ (by decide) hle,
        length_recentOnes_lt_iff hround _ _ (by decide) hle, forall_laterTime]
      exact fun a b hab hb => hb.trans (age_mono hround le_rfl hab)
  | start => exact length_recentOnes_lt_iff hround _ _ (by decide) hle

theorem freeAt_of_over (hover : l.ExhaustionOver wall) :
    l.freeAt round program pool action shadow wall =
      (awaited round (l.bookings shadow) program pool wall action).map fun booked =>
        round (booked + budgetWindowS) := by
  have hfilter : (l.exhaustedUntil.filter fun stop => wall < stop) = none := by
    rw [Option.filter_eq_none_iff]
    intro stop hstop
    simpa using hover stop hstop
  have hsum : Monotone fun booked : ℚ => round (booked + budgetWindowS) :=
    fun a b hab => hround (add_le_add_left hab _)
  have htests : ∀ (test : Booking → Bool),
      (((l.bookings shadow).filter fun b => b.action = action && isRecent round wall b.wall).filter
        test) = recentOnes round wall (fun b => test b && b.action = action) (l.bookings shadow) := by
    intro test
    rw [recentOnes, List.filter_filter]
    exact List.filter_congr fun b _ => (Bool.and_assoc ..).symm
  unfold freeAt awaited
  rw [hfilter]
  cases action with
  | restart =>
      dsimp only
      rw [htests, htests]
      exact map_laterTime hsum _ _
  | start =>
      dsimp only
      rw [htests]
      rfl

/-- `free_at` has no time to tell exactly when the budgets allow the action. -/
theorem freeAt_eq_none_iff :
    l.freeAt round program pool action shadow wall = none ↔
      l.Allows round program pool action shadow wall := by
  by_cases hover : l.ExhaustionOver wall
  · rw [Allows, and_iff_right hover, leavesRoom_iff hround _ le_rfl, freeAt_of_over hround hover,
      Option.map_eq_none_iff, Option.eq_none_iff_forall_not_mem]
    refine forall₂_congr fun booked hbooked => ?_
    simpa using age_lt_of_awaited hbooked
  · obtain ⟨stop, hstop, hlater⟩ := exists_of_not_over hover
    rw [freeAt_of_exhausted hstop hlater, Allows, iff_false_intro hover, false_and]
    exact iff_of_false (Option.some_ne_none stop) id

/-- With no further bookings, from now on only the booking that has to leave holds the action. -/
theorem freeAt_later (hover : l.ExhaustionOver wall) (hle : wall ≤ now) :
    l.freeAt round program pool action shadow now = none ↔
      ∀ booked ∈ awaited round (l.bookings shadow) program pool wall action,
        budgetWindowS ≤ age round now booked := by
  have hover' : l.ExhaustionOver now := fun stop hstop => (hover stop hstop).trans hle
  rw [freeAt_eq_none_iff hround, Allows, and_iff_right hover', leavesRoom_iff hround _ hle]

/-- The forecast is exact when, at the end of the time for which the budgets count as exhausted, the
bookings leave room too, and the booking that has to leave does so at the sum. -/
theorem forecastExact_iff (hnumber : ∀ stop, l.exhaustedUntil = some stop → IsNumber stop) :
    l.ForecastExact round IsNumber program pool action shadow wall ↔
      (∀ stop, l.exhaustedUntil = some stop → wall < stop →
        LeavesRoom round (l.bookings shadow) program pool stop action) ∧
      (l.ExhaustionOver wall →
        ∀ booked ∈ awaited round (l.bookings shadow) program pool wall action,
          LeavesAtSum round IsNumber booked) := by
  unfold ForecastExact
  rw [iff_true_intro (freeAt_eq_none_iff hround), true_and]
  by_cases hover : l.ExhaustionOver wall
  · have hpast : ∀ stop, l.exhaustedUntil = some stop → wall < stop →
        LeavesRoom round (l.bookings shadow) program pool stop action :=
      fun stop hstop hlater => absurd hlater (not_lt.2 (hover stop hstop))
    rw [iff_true_intro hpast, true_and, freeAt_of_over hround hover]
    cases hawaited : awaited round (l.bookings shadow) program pool wall action with
    | none => simp
    | some booked =>
        have hrecent := age_lt_of_awaited (Option.mem_def.2 hawaited)
        -- The hour is over only later than now.
        have hset : {now | IsNumber now ∧ wall ≤ now ∧
            l.freeAt round program pool action shadow now = none} =
              {now | IsNumber now ∧ budgetWindowS ≤ age round now booked} := by
          ext now
          refine and_congr_right fun _ => ⟨fun ⟨hle, hfree⟩ => ?_, fun hage => ?_⟩
          · exact (freeAt_later hround hover hle).1 hfree booked (Option.mem_def.2 hawaited)
          · have hle : wall ≤ now := by
              by_contra hbefore
              have hless := age_mono hround (not_le.1 hbefore).le (le_refl booked)
              exact absurd (hage.trans hless) (not_le.2 hrecent)
            refine ⟨hle, (freeAt_later hround hover hle).2 fun other hother => ?_⟩
            rw [Option.mem_def, hawaited, Option.some.injEq] at hother
            exact hother ▸ hage
        rw [hset]
        simp [hover, LeavesAtSum]
  · obtain ⟨stop, hstop, hlater⟩ := exists_of_not_over hover
    have hfree : ∀ now, l.freeAt round program pool action shadow now = none ↔
        stop ≤ now ∧ LeavesRoom round (l.bookings shadow) program pool now action := by
      intro now
      have hends : l.ExhaustionOver now ↔ stop ≤ now := by simp [ExhaustionOver, hstop]
      rw [freeAt_eq_none_iff hround, Allows, hends]
    rw [freeAt_of_exhausted hstop hlater]
    constructor
    · intro hleast
      refine ⟨fun stop' hstop' _ => ?_, fun hover' => absurd hover' hover⟩
      rw [hstop, Option.some.injEq] at hstop'
      subst hstop'
      exact ((hfree stop).1 (hleast stop rfl).1.2.2).2
    · rintro ⟨hroom, -⟩ t ht
      rw [Option.some.injEq] at ht
      subst ht
      refine ⟨⟨hnumber stop hstop, hlater.le, (hfree stop).2 ⟨le_rfl, hroom stop hstop hlater⟩⟩, ?_⟩
      rintro now ⟨-, -, hnow⟩
      exact ((hfree now).1 hnow).1

end Monotone

/-! ## Floating-point times -/

open Binary64

/-- A number below another one from an hour on is at least a last place of the hour below it. -/
theorem le_sub_of_lt {t t' : ℚ} (ht : Representable t) (ht' : Representable t')
    (hlarge : budgetWindowS ≤ t) (hlt : t' < t) : t' ≤ t - 2 ^ (-41 : ℤ) := by
  have hplace : (2 : ℚ) ^ (-41 : ℤ) ≤ 1 := zpow_le_one_of_nonpos₀ one_le_two (by decide)
  have hpower : (2 : ℚ) ^ (11 : ℤ) = 2048 := by norm_num
  have hwindow : budgetWindowS = 3600 := rfl
  rcases lt_or_ge t' 2048 with hsmall | hbig
  · linarith
  · -- Both are multiples of the place.
    have hbig' : (2 : ℚ) ^ (11 : ℤ) ≤ t := by linarith
    obtain ⟨n, hn⟩ := ht.eq_mul_zpow (hbig'.trans (le_abs_self t))
    obtain ⟨n', hn'⟩ := ht'.eq_mul_zpow ((hpower.trans_le hbig).trans (le_abs_self t'))
    have hpos := two_zpow_pos (11 - 52)
    have hstep : (n' : ℚ) ≤ n - 1 := by
      rw [hn, hn', mul_lt_mul_iff_left₀ hpos] at hlt
      have hint : n' < n := by exact_mod_cast hlt
      exact_mod_cast Int.le_sub_one_of_lt hint
    calc t' = n' * 2 ^ ((11 : ℤ) - 52) := hn'
      _ ≤ (n - 1) * 2 ^ ((11 : ℤ) - 52) := mul_le_mul_of_nonneg_right hstep hpos.le
      _ = t - 2 ^ (-41 : ℤ) := by
        rw [sub_mul, one_mul, ← hn]
        rfl

/-- Where the sum is a number, the booking leaves at the sum. -/
theorem leavesAtSum_of_representable {booked : ℚ} (hpast : 0 ≤ booked)
    (h : Representable (booked + budgetWindowS)) : LeavesAtSum nearest Representable booked := by
  have hwindow : nearest budgetWindowS = budgetWindowS :=
    nearest_of_representable (representable_intCast (n := 3600) (by decide))
  unfold LeavesAtSum
  rw [nearest_of_representable h]
  refine ⟨⟨h, ?_⟩, ?_⟩
  · rw [age, add_sub_cancel_left, hwindow]
    exact le_max_right _ _
  · rintro t ⟨ht, hage⟩
    by_contra hbefore
    have hgap := le_sub_of_lt h ht (le_add_of_nonneg_left hpast) (not_le.1 hbefore)
    -- The number before the hour is less than the hour.
    have hless : nearest (budgetWindowS - 2 ^ (-41 : ℤ)) = budgetWindowS - 2 ^ (-41 : ℤ) := by
      refine nearest_of_representable ⟨3600 * 2 ^ 41 - 1, -41, by decide, by decide, ?_⟩
      rw [budgetWindowS]
      norm_num
    have hround : nearest (t - booked) ≤ budgetWindowS - 2 ^ (-41 : ℤ) := by
      rw [← hless]
      exact nearest_mono (by linarith)
    have hpos := two_zpow_pos (-41)
    have hlt : age nearest t booked < budgetWindowS :=
      max_lt (by decide +kernel) (by linarith)
    exact absurd hage (not_le.2 hlt)

-- Just less than an hour before second 2147483648 the sum is rounded down.
example : nearest (2147483648 - 3600 + 1 / 4194304 + budgetWindowS) = 2147483648 ∧
    age nearest 2147483648 (2147483648 - 3600 + 1 / 4194304) < budgetWindowS := by decide +kernel

/-- So it does when no power of two lies between the booking and the sum. -/
theorem leavesAtSum_of_binade {booked : ℚ} {k : ℤ} (hbooked : Representable booked)
    (hlow : 2 ^ k ≤ booked) (hhigh : booked + budgetWindowS ≤ 2 ^ (k + 1)) (hk : -1022 ≤ k)
    (hk' : k ≤ 52) : LeavesAtSum nearest Representable booked := by
  have hpos := two_zpow_pos (k - 52)
  obtain ⟨n, hn⟩ := hbooked.eq_mul_zpow (hlow.trans (le_abs_self booked))
  obtain ⟨p, hp⟩ := zpow_eq_mul_zpow (show k - 52 ≤ 0 by omega)
  have hsum : booked + budgetWindowS = ((n + 3600 * p : ℤ) : ℚ) * 2 ^ (k - 52) := by
    have hwindow : budgetWindowS = 3600 * 2 ^ (0 : ℤ) := by norm_num [budgetWindowS]
    rw [hwindow, hp]
    nth_rewrite 1 [hn]
    push_cast
    ring
  have hnonneg : 0 ≤ booked := (two_zpow_pos k).le.trans hlow
  refine leavesAtSum_of_representable hnonneg ⟨n + 3600 * p, k - 52, ?_, by omega, hsum⟩
  have htop : ((n + 3600 * p : ℤ) : ℚ) * 2 ^ (k - 52) ≤ 2 ^ (53 : ℤ) * 2 ^ (k - 52) := by
    rw [← hsum, ← zpow_add₀ two_ne_zero]
    exact hhigh.trans_eq (by congr 1; omega)
  have hupper : n + 3600 * p ≤ 2 ^ 53 := by
    exact_mod_cast le_of_mul_le_mul_right htop hpos
  have hlower : 0 ≤ n + 3600 * p := by
    have hsumNonneg : 0 ≤ booked + budgetWindowS := add_nonneg hnonneg (by decide +kernel)
    rw [hsum] at hsumNonneg
    exact_mod_cast nonneg_of_mul_nonneg_left hsumNonneg hpos
  rwa [abs_of_nonneg hlower]

/-- The forecast is exact when, at the end of the time for which the budgets count as exhausted, the
bookings leave room too, and the booking that has to leave does so at the sum that is formed. -/
theorem forecast_exact_iff (l : Ledger) (program : String) (pool : Pool) (action : Action)
    (shadow : Bool) (wall : ℚ) (hstop : ∀ stop, l.exhaustedUntil = some stop → Representable stop) :
    l.ForecastExact nearest Representable program pool action shadow wall ↔
      (∀ stop, l.exhaustedUntil = some stop → wall < stop →
        LeavesRoom nearest (l.bookings shadow) program pool stop action) ∧
      (l.ExhaustionOver wall →
        ∀ booked ∈ awaited nearest (l.bookings shadow) program pool wall action,
          LeavesAtSum nearest Representable booked) :=
  forecastExact_iff nearest_mono hstop

/-- A ledger that counts as exhausted for ten more minutes, with two restarts of a program. -/
def exhaustedWithRestarts : Ledger where
  real := [⟨3000, "es", "cmsEvaluationService 0", .services, .restart, "R2", false, some 1⟩,
    ⟨3100, "es", "cmsEvaluationService 0", .services, .restart, "R2", false, some 2⟩]
  shadow := []
  red := []
  exhaustedUntil := some 4000

/-- Once the exhaustion is over the forecast is exact: the first restart is awaited. -/
theorem forecast_exact_iff_restarts :
    exhaustedWithRestarts.ForecastExact nearest Representable "es" .services .restart false 5000 := by
  have hstop : ∀ stop, exhaustedWithRestarts.exhaustedUntil = some stop → Representable stop := by
    intro stop hsome
    cases hsome
    exact representable_intCast (n := 4000) (by decide)
  have hawaited : awaited nearest (exhaustedWithRestarts.bookings false) "es" .services 5000 .restart =
      some 3000 := by decide +kernel
  refine (forecast_exact_iff _ _ _ _ _ _ hstop).2 ⟨fun stop hsome hlater => ?_, fun _ booked hmem => ?_⟩
  · cases hsome
    exact absurd hlater (by decide +kernel)
  · rw [hawaited] at hmem
    cases hmem
    have hsum : (3000 : ℚ) + budgetWindowS = (6600 : ℤ) := by norm_num [budgetWindowS]
    refine leavesAtSum_of_representable (by decide +kernel) ?_
    rw [hsum]
    exact representable_intCast (by decide)

/-- The forecast is the end of the exhaustion, when the restarts still hold the action. -/
theorem exhausted_forecast_too_early :
    exhaustedWithRestarts.freeAt nearest "es" .services .restart false 3400 = some 4000 ∧
      exhaustedWithRestarts.freeAt nearest "es" .services .restart false 4000 = some 6600 ∧
      ¬ exhaustedWithRestarts.ForecastExact nearest Representable "es" .services .restart false
        3400 := by
  have hnow : exhaustedWithRestarts.freeAt nearest "es" .services .restart false 3400 =
      some 4000 := by decide +kernel
  have hthen : exhaustedWithRestarts.freeAt nearest "es" .services .restart false 4000 =
      some 6600 := by decide +kernel
  refine ⟨hnow, hthen, fun hexact => ?_⟩
  have hfree := (hexact.2 4000 hnow).1.2.2
  rw [hthen] at hfree
  cases hfree

end Ledger

end Watchdog
end ContestManagement
