import ContestManagement.Common.Datetime
import ContestManagement.Lib.Python
import ContestManagement.Lib.Timeline
import Mathlib

/-!
# The phases of a contest

`compute_actual_phase` of `cms/server/contest/phase_management.py` says in which phase of the
contest a user is at a time, when that phase began and when it ends, and when the user may
compete.  Times are counted in microseconds since 1970.  A sum past the last time of `datetime`
raises.

The phases of a user are those of a time line: the contest starts, the user starts and stops, the
contest and the user have both stopped, and the analysis mode starts and stops.
-/

namespace ContestManagement
namespace Server

open Lib Common

/-- What `compute_actual_phase` raises. -/
inductive PhaseError
  | assertionError
  | runtimeError (message : String)
  | overflowError (message : String)
  deriving DecidableEq

/-- The arguments of `compute_actual_phase` besides the timestamp. -/
structure PhaseArguments where
  contestStart : ℤ
  contestStop : ℤ
  analysisStart : Option ℤ
  analysisStop : Option ℤ
  perUserTime : Option ℤ
  startingTime : Option ℤ
  delayTime : ℤ
  extraTime : ℤ

structure ActualPhase where
  actualPhase : ℤ
  currentPhaseBegin : Option ℤ
  currentPhaseEnd : Option ℤ
  actualStart : Option ℤ
  actualStop : Option ℤ
  deriving DecidableEq

namespace PhaseArguments

variable (a : PhaseArguments) (timestamp : ℤ)

def asserted (condition : Prop) [Decidable condition] : Except PhaseError Unit :=
  if condition then .ok () else .error .assertionError

def logicError : PhaseError := .runtimeError "Logic doesn't seem to be working..."

/-- The sum of a `datetime` and a `timedelta`. -/
def datetimeSum (time duration : ℤ) : Except PhaseError ℤ :=
  if IsDatetime (time + duration) then .ok (time + duration)
  else .error (.overflowError "date value out of range")

/-- The phase while it is not known when the user starts. -/
def beforeStarting : Except PhaseError ActualPhase :=
  if a.contestStart ≤ timestamp ∧ timestamp ≤ a.contestStop then
    .ok ⟨-1, some a.contestStart, some a.contestStop, none, none⟩
  else if timestamp < a.contestStart then .ok ⟨-2, none, some a.contestStart, none, none⟩
  else if a.contestStop < timestamp then .ok ⟨2, some a.contestStop, none, none, none⟩
  else .error logicError

/-- The phase of a user who starts and stops at known times. -/
def onceStarted (intendedStart intendedStop : ℤ) : Except PhaseError ActualPhase := do
  let actualStart ← datetimeSum intendedStart a.delayTime
  let delayedStop ← datetimeSum intendedStop a.delayTime
  let actualStop ← datetimeSum delayedStop a.extraTime
  asserted (a.contestStart ≤ actualStart ∧ actualStart ≤ actualStop)
  if actualStart ≤ timestamp ∧ timestamp ≤ actualStop then
    return ⟨0, some actualStart, some actualStop, some actualStart, some actualStop⟩
  else if a.contestStart ≤ timestamp ∧ timestamp < actualStart then
    return ⟨-1, some a.contestStart, some actualStart, some actualStart, some actualStop⟩
  else if timestamp < a.contestStart then
    return ⟨-2, none, some a.contestStart, some actualStart, some actualStop⟩
  else if actualStop < timestamp ∧ timestamp ≤ a.contestStop then
    return ⟨1, some actualStop, some a.contestStop, some actualStart, some actualStop⟩
  else if a.contestStop < timestamp then
    return ⟨2, some (max a.contestStop actualStop), none, some actualStart, some actualStop⟩
  else throw logicError

/-- When the user should start and stop, kept within the contest; `none` if it is not known. -/
def intended : Except PhaseError (Option (ℤ × ℤ)) :=
  match a.perUserTime, a.startingTime with
  | none, _ => .ok (some (a.contestStart, a.contestStop))
  | some _, none => .ok none
  | some perUserTime, some startingTime => do
      let stop ← datetimeSum startingTime perUserTime
      return some (min (max startingTime a.contestStart) a.contestStop,
        min (max stop a.contestStart) a.contestStop)

/-- A time, but not before the user has stopped. -/
def notBeforeStop (time : ℤ) (actualStop : Option ℤ) : ℤ :=
  match actualStop with
  | some stop => max time stop
  | none => time

/-- What becomes of the phase `+2` in a contest with an analysis mode, or without one. -/
def withAnalysis (result : ActualPhase) : Except PhaseError ActualPhase :=
  if result.actualPhase ≠ 2 then .ok result
  else
    match a.analysisStart with
    | none => .ok { result with actualPhase := 4 }
    | some analysisStart => do
        asserted (a.contestStop ≤ analysisStart)
        match a.analysisStop with
        | none => throw .assertionError
        | some analysisStop => do
            asserted (analysisStart ≤ analysisStop)
            if timestamp < analysisStart then
              return { result with currentPhaseEnd := some analysisStart }
            else if analysisStart ≤ timestamp ∧ timestamp ≤ analysisStop then
              return { result with
                actualPhase := 3
                currentPhaseBegin := some (notBeforeStop analysisStart result.actualStop)
                currentPhaseEnd := some analysisStop }
            else if analysisStop < timestamp then
              return { result with
                actualPhase := 4
                currentPhaseBegin := some (notBeforeStop analysisStop result.actualStop)
                currentPhaseEnd := none }
            else throw logicError

/-- `compute_actual_phase`. -/
def computeActualPhase : Except PhaseError ActualPhase := do
  asserted (a.contestStart ≤ a.contestStop)
  asserted (∀ perUserTime ∈ a.perUserTime, 0 ≤ perUserTime)
  asserted (0 ≤ a.delayTime)
  asserted (0 ≤ a.extraTime)
  let intended ← a.intended
  let result ←
    match intended with
    | none => a.beforeStarting timestamp
    | some (intendedStart, intendedStop) => a.onceStarted timestamp intendedStart intendedStop
  a.withAnalysis timestamp result

/-- What the function asserts about its arguments. -/
structure Asserted : Prop where
  contest : a.contestStart ≤ a.contestStop
  perUserTime : ∀ perUserTime ∈ a.perUserTime, 0 ≤ perUserTime
  delayTime : 0 ≤ a.delayTime
  extraTime : 0 ≤ a.extraTime
  analysis : ∀ analysisStart ∈ a.analysisStart, a.contestStop ≤ analysisStart ∧
    ∃ analysisStop ∈ a.analysisStop, analysisStart ≤ analysisStop

/-! ## The time line of a user -/

/-- When the user should compete, kept within the contest. -/
def withinContest : Option (ℤ × ℤ) :=
  match a.perUserTime, a.startingTime with
  | none, _ => some (a.contestStart, a.contestStop)
  | some _, none => none
  | some perUserTime, some startingTime =>
      some (min (max startingTime a.contestStart) a.contestStop,
        min (max (startingTime + perUserTime) a.contestStart) a.contestStop)

/-- Every sum that the function forms is a `datetime`. -/
structure StaysInRange : Prop where
  stopping : ∀ perUserTime ∈ a.perUserTime, ∀ startingTime ∈ a.startingTime,
    IsDatetime (startingTime + perUserTime)
  shifted : ∀ start stop, a.withinContest = some (start, stop) →
    IsDatetime (start + a.delayTime) ∧ IsDatetime (stop + a.delayTime) ∧
      IsDatetime (stop + a.delayTime + a.extraTime)

/-- When the user may compete. -/
def window : Option (ℤ × ℤ) :=
  a.withinContest.map fun times => (times.1 + a.delayTime, times.2 + a.delayTime + a.extraTime)

/-- The contest and the user have both stopped. -/
def allStopped : Cut ℤ :=
  Cut.after (notBeforeStop a.contestStop (a.window.map Prod.snd))

def competition : List (Cut ℤ × ℤ) :=
  match a.window with
  | none => [(Cut.before a.contestStart, -1)]
  | some (start, stop) =>
      [(Cut.before a.contestStart, -1), (Cut.before start, 0), (Cut.after stop, 1)]

def afterwards : List (Cut ℤ × ℤ) :=
  match a.analysisStart, a.analysisStop with
  | some analysisStart, some analysisStop =>
      [(a.allStopped, 2), (max a.allStopped (Cut.before analysisStart), 3),
        (max a.allStopped (Cut.after analysisStop), 4)]
  | _, _ => [(a.allStopped, 4)]

def periodAt : Period ℤ ℤ :=
  Timeline.periodAt timestamp (-2) none (a.competition ++ a.afterwards)

variable {a timestamp} {entry : Cut ℤ × ℤ}

theorem asserted_bind {β : Type} {condition : Prop} [Decidable condition] (h : condition)
    (next : Unit → Except PhaseError β) : (asserted condition >>= next) = next () := by
  rw [asserted, if_pos h]
  rfl

theorem datetimeSum_eq {time duration : ℤ} (h : IsDatetime (time + duration)) :
    datetimeSum time duration = .ok (time + duration) := if_pos h

theorem datetimeSum_overflows {time duration : ℤ} (h : ¬IsDatetime (time + duration)) :
    datetimeSum time duration = .error (.overflowError "date value out of range") := if_neg h

theorem Asserted.window_le (h : a.Asserted) {start stop : ℤ} (hwindow : a.window = some (start, stop)) :
    a.contestStart ≤ start ∧ start ≤ stop := by
  obtain ⟨hcontest, hperUserTime, hdelay, hextra, -⟩ := h
  unfold window withinContest at hwindow
  cases hperUser : a.perUserTime with
  | none =>
      simp only [hperUser, Option.map_some, Option.some.injEq, Prod.mk.injEq] at hwindow
      omega
  | some perUserTime =>
      have hnonneg := hperUserTime perUserTime hperUser
      cases hstarting : a.startingTime with
      | none => simp [hperUser, hstarting] at hwindow
      | some startingTime =>
          simp only [hperUser, hstarting, Option.map_some, Option.some.injEq, Prod.mk.injEq] at hwindow
          omega

theorem Asserted.le_allStopped (h : a.Asserted) : ∀ entry ∈ a.competition, entry.1 ≤ a.allStopped := by
  intro entry hentry
  have hcontest := h.contest
  unfold competition at hentry
  cases hwindow : a.window with
  | none =>
      rw [hwindow, List.mem_singleton] at hentry
      rw [hentry, allStopped, hwindow]
      exact Cut.before_le_after.2 hcontest
  | some times =>
      obtain ⟨start, stop⟩ := times
      have hle := h.window_le hwindow
      rw [hwindow] at hentry
      rw [allStopped, hwindow]
      simp only [List.mem_cons, List.not_mem_nil, or_false] at hentry
      rcases hentry with rfl | rfl | rfl
      · exact Cut.before_le_after.2 (hcontest.trans (le_max_left _ _))
      · exact Cut.before_le_after.2 (hle.2.trans (le_max_right _ _))
      · exact Cut.after_le_after.2 (le_max_right _ _)

theorem allStopped_le (h : entry ∈ a.afterwards) : a.allStopped ≤ entry.1 := by
  unfold afterwards at h
  split at h
  · simp only [List.mem_cons, List.not_mem_nil, or_false] at h
    rcases h with rfl | rfl | rfl
    · exact le_refl a.allStopped
    · exact le_max_left _ _
    · exact le_max_left _ _
  · rw [List.mem_singleton] at h
    rw [h]

/-- The analysis mode starts and stops after the contest, but the user may stop later still. -/
theorem max_allStopped_time {time : ℤ} (h : a.contestStop ≤ time) :
    max a.allStopped.time time = notBeforeStop time (a.window.map Prod.snd) := by
  unfold allStopped
  cases a.window with
  | none => exact max_eq_right h
  | some times =>
      simp only [Option.map_some, notBeforeStop, Cut.time_after]
      omega

theorem Asserted.competition_ordered (h : a.Asserted) :
    a.competition.Pairwise fun x y => x.1 ≤ y.1 := by
  unfold competition
  cases hwindow : a.window with
  | none => exact List.pairwise_singleton _ _
  | some times =>
      obtain ⟨start, stop⟩ := times
      have hle := h.window_le hwindow
      simp [hle.1, hle.2, hle.1.trans hle.2]

theorem Asserted.afterwards_ordered (h : a.Asserted) :
    a.afterwards.Pairwise fun x y => x.1 ≤ y.1 := by
  unfold afterwards
  split
  · rename_i analysisStart analysisStop hstart hstop
    obtain ⟨-, stop, hmem, hle⟩ := h.analysis analysisStart hstart
    rw [hstop, Option.mem_some_iff] at hmem
    have hcuts : Cut.before analysisStart ≤ Cut.after analysisStop := by
      rw [Cut.before_le_after, hmem]
      exact hle
    simp [hcuts]
  · exact List.pairwise_singleton _ _

theorem Asserted.ordered (h : a.Asserted) :
    Timeline.Ordered (-2) (a.competition ++ a.afterwards) := by
  constructor
  · exact List.pairwise_append.2 ⟨h.competition_ordered, h.afterwards_ordered,
      fun x hx y hy => (h.le_allStopped x hx).trans (allStopped_le hy)⟩
  · unfold competition afterwards
    split
    · split
      · simp
      · simp
    · split
      · simp
      · simp

/-! ## The phases are those of the time line -/

/-- The phases before the analysis mode comes in. -/
def mainPeriodAt (a : PhaseArguments) (timestamp : ℤ) : Period ℤ ℤ :=
  Timeline.periodAt timestamp (-2) none (a.competition ++ [(a.allStopped, 2)])

theorem Asserted.main_ordered (h : a.Asserted) :
    Timeline.Ordered (-2) (a.competition ++ [(a.allStopped, 2)]) := by
  constructor
  · refine List.pairwise_append.2 ⟨h.competition_ordered, List.pairwise_singleton _ _, ?_⟩
    intro x hx y hy
    rw [List.mem_singleton.1 hy]
    exact h.le_allStopped x hx
  · unfold competition
    split
    · simp
    · simp

theorem Asserted.beforeStarting_eq (h : a.Asserted) (hwindow : a.window = none) :
    a.beforeStarting timestamp =
      .ok ⟨(a.mainPeriodAt timestamp).phase, (a.mainPeriodAt timestamp).start,
        (a.mainPeriodAt timestamp).stop, none, none⟩ := by
  have hcontest := h.contest
  unfold mainPeriodAt competition allStopped beforeStarting
  rw [hwindow]
  simp only [List.cons_append, List.nil_append, Timeline.periodAt, Cut.before_passed,
    Cut.after_passed, Cut.time_before, Cut.time_after, Option.map_none, notBeforeStop]
  by_cases hstart : a.contestStart ≤ timestamp
  · by_cases hstop : a.contestStop < timestamp
    · rw [if_neg (by omega), if_neg (by omega), if_pos hstop, if_pos hstart, if_pos hstop]
    · rw [if_pos (by omega), if_pos hstart, if_neg hstop]
  · rw [if_neg (by omega), if_pos (by omega), if_neg hstart]

theorem Asserted.onceStarted_eq (h : a.Asserted) {intendedStart intendedStop start stop : ℤ}
    (hstart : start = intendedStart + a.delayTime)
    (hstop : stop = intendedStop + a.delayTime + a.extraTime)
    (hwindow : a.window = some (start, stop))
    (hrange : IsDatetime (intendedStart + a.delayTime) ∧ IsDatetime (intendedStop + a.delayTime) ∧
      IsDatetime (intendedStop + a.delayTime + a.extraTime)) :
    a.onceStarted timestamp intendedStart intendedStop =
      .ok ⟨(a.mainPeriodAt timestamp).phase, (a.mainPeriodAt timestamp).start,
        (a.mainPeriodAt timestamp).stop, some start, some stop⟩ := by
  have hcontest := h.contest
  have hle := h.window_le hwindow
  unfold mainPeriodAt competition allStopped onceStarted
  rw [hwindow, datetimeSum_eq hrange.1, datetimeSum_eq hrange.2.1]
  simp only [ok_bind]
  rw [datetimeSum_eq hrange.2.2, ← hstart, ← hstop]
  simp only [ok_bind]
  simp only [List.cons_append, List.nil_append, Timeline.periodAt, Cut.before_passed,
    Cut.after_passed, Cut.time_before, Cut.time_after, Option.map_some, notBeforeStop]
  rw [asserted_bind hle]
  by_cases hcontestStart : a.contestStart ≤ timestamp
  · by_cases hstarted : start ≤ timestamp
    · by_cases hstopped : stop < timestamp
      · by_cases hover : max a.contestStop stop < timestamp
        · rw [if_neg (by omega), if_neg (by omega), if_neg (by omega), if_neg (by omega),
            if_pos (by omega), if_pos hcontestStart, if_pos hstarted, if_pos hstopped, if_pos hover]
          rfl
        · rw [if_neg (by omega), if_neg (by omega), if_neg (by omega), if_pos (by omega),
            if_pos hcontestStart, if_pos hstarted, if_pos hstopped, if_neg hover,
            max_eq_left (by omega)]
          rfl
      · rw [if_pos (by omega), if_pos hcontestStart, if_pos hstarted, if_neg hstopped]
        rfl
    · rw [if_neg (by omega), if_pos (by omega), if_pos hcontestStart, if_neg hstarted]
      rfl
  · rw [if_neg (by omega), if_neg (by omega), if_pos (by omega), if_neg hcontestStart]
    rfl

/-- The analysis mode takes the place of the phase `+2`. -/
theorem Asserted.withAnalysis_eq (h : a.Asserted) {result : ActualPhase}
    (hphase : result.actualPhase = (a.mainPeriodAt timestamp).phase)
    (hbegin : result.currentPhaseBegin = (a.mainPeriodAt timestamp).start)
    (hend : result.currentPhaseEnd = (a.mainPeriodAt timestamp).stop)
    (hstop : result.actualStop = a.window.map Prod.snd) :
    a.withAnalysis timestamp result =
      .ok ⟨(a.periodAt timestamp).phase, (a.periodAt timestamp).start,
        (a.periodAt timestamp).stop, result.actualStart, result.actualStop⟩ := by
  by_cases hover : a.allStopped.Passed timestamp
  · have hmain : a.mainPeriodAt timestamp = ⟨2, some a.allStopped.time, none⟩ :=
      Timeline.periodAt_append_of_passed hover h.le_allStopped
    rw [hmain] at hphase hbegin hend
    unfold withAnalysis periodAt afterwards
    rw [if_neg (not_not.2 hphase)]
    cases hanalysisStart : a.analysisStart with
    | none =>
        rw [Timeline.periodAt_append_of_passed hover h.le_allStopped]
        simp only [Timeline.periodAt, hbegin, hend]
    | some analysisStart =>
        obtain ⟨hafterContest, analysisStop, hanalysisStop, hle⟩ := h.analysis _ hanalysisStart
        rw [Option.mem_def] at hanalysisStop
        simp only [hanalysisStop]
        rw [asserted_bind hafterContest, asserted_bind hle,
          Timeline.periodAt_append_of_passed hover h.le_allStopped, hstop]
        simp only [Timeline.periodAt, Cut.max_passed, hover, true_and, Cut.before_passed,
          Cut.after_passed, Cut.time_max, Cut.time_before, Cut.time_after]
        have htime := hover.time_le
        by_cases hstarted : analysisStart ≤ timestamp
        · by_cases hstopped : analysisStop < timestamp
          · rw [if_neg (by omega), if_neg (by omega), if_pos hstopped, if_pos hstarted,
              if_pos hstopped, max_allStopped_time (hafterContest.trans hle)]
            rfl
          · rw [if_neg (by omega), if_pos (by omega), if_pos hstarted, if_neg hstopped,
              max_allStopped_time hafterContest, max_eq_right (htime.trans (not_lt.1 hstopped))]
            rfl
        · rw [if_pos (by omega), if_neg hstarted,
            max_eq_right (htime.trans (not_le.1 hstarted).le), hphase, hbegin]
          rfl
  · have hmain : a.periodAt timestamp = a.mainPeriodAt timestamp := by
      unfold periodAt mainPeriodAt afterwards
      split
      · exact Timeline.periodAt_append_of_not_passed hover 2 []
      · exact Timeline.periodAt_append_of_not_passed hover 2 []
    have hbefore : (a.mainPeriodAt timestamp).phase < 2 :=
      Timeline.Ordered.phase_lt_of_not_passed (h.main_ordered) hover
    rw [hmain, withAnalysis, if_pos (by omega), ← hphase, ← hbegin, ← hend]

/-- The result of `compute_actual_phase`, read off the time line. -/
def phaseAt (a : PhaseArguments) (timestamp : ℤ) : ActualPhase :=
  ⟨(a.periodAt timestamp).phase, (a.periodAt timestamp).start, (a.periodAt timestamp).stop,
    a.window.map Prod.fst, a.window.map Prod.snd⟩

theorem StaysInRange.intended_eq (h : a.StaysInRange) : a.intended = .ok a.withinContest := by
  unfold intended withinContest
  cases hperUser : a.perUserTime with
  | none => rfl
  | some perUserTime =>
      cases hstarting : a.startingTime with
      | none => rfl
      | some startingTime =>
          dsimp only
          rw [datetimeSum_eq (h.stopping perUserTime hperUser startingTime hstarting)]
          rfl

theorem Asserted.computeActualPhase_eq (h : a.Asserted) (hrange : a.StaysInRange) :
    a.computeActualPhase timestamp = .ok (a.phaseAt timestamp) := by
  unfold computeActualPhase phaseAt
  rw [asserted_bind h.contest, asserted_bind h.perUserTime, asserted_bind h.delayTime,
    asserted_bind h.extraTime, hrange.intended_eq, ok_bind]
  cases hwithin : a.withinContest with
  | none =>
      have hwindow : a.window = none := by rw [window, hwithin, Option.map_none]
      dsimp only
      rw [h.beforeStarting_eq hwindow]
      refine (h.withAnalysis_eq rfl rfl rfl ?_).trans ?_
      · rw [hwindow, Option.map_none]
      · rw [hwindow, Option.map_none, Option.map_none]
  | some times =>
      obtain ⟨intendedStart, intendedStop⟩ := times
      have hwindow : a.window =
          some (intendedStart + a.delayTime, intendedStop + a.delayTime + a.extraTime) := by
        rw [window, hwithin, Option.map_some]
      dsimp only
      rw [h.onceStarted_eq rfl rfl hwindow (hrange.shifted _ _ hwithin)]
      refine (h.withAnalysis_eq rfl rfl rfl ?_).trans ?_
      · rw [hwindow, Option.map_some]
      · rw [hwindow, Option.map_some, Option.map_some]

/-- A sum out of range raises, at any time. -/
theorem onceStarted_overflows {intendedStart intendedStop : ℤ}
    (h : ¬(IsDatetime (intendedStart + a.delayTime) ∧ IsDatetime (intendedStop + a.delayTime) ∧
      IsDatetime (intendedStop + a.delayTime + a.extraTime))) :
    a.onceStarted timestamp intendedStart intendedStop =
      .error (.overflowError "date value out of range") := by
  unfold onceStarted
  by_cases hstart : IsDatetime (intendedStart + a.delayTime)
  · rw [datetimeSum_eq hstart, ok_bind]
    by_cases hdelayed : IsDatetime (intendedStop + a.delayTime)
    · rw [datetimeSum_eq hdelayed, ok_bind,
        datetimeSum_overflows fun hstop => h ⟨hstart, hdelayed, hstop⟩]
      rfl
    · rw [datetimeSum_overflows hdelayed]
      rfl
  · rw [datetimeSum_overflows hstart]
    rfl

/-- Where a sum is no `datetime`, the function raises at every time. -/
theorem Asserted.computeActualPhase_overflows (h : a.Asserted) (hrange : ¬a.StaysInRange) :
    a.computeActualPhase timestamp = .error (.overflowError "date value out of range") := by
  unfold computeActualPhase
  rw [asserted_bind h.contest, asserted_bind h.perUserTime, asserted_bind h.delayTime,
    asserted_bind h.extraTime]
  have hshifted : ∀ start stop, a.withinContest = some (start, stop) →
      (∀ perUserTime ∈ a.perUserTime, ∀ startingTime ∈ a.startingTime,
        IsDatetime (startingTime + perUserTime)) →
      a.onceStarted timestamp start stop = .error (.overflowError "date value out of range") := by
    intro start stop hwithin hstopping
    refine onceStarted_overflows fun hsums => hrange ⟨hstopping, fun start' stop' hwithin' => ?_⟩
    rw [hwithin, Option.some.injEq, Prod.mk.injEq] at hwithin'
    rw [← hwithin'.1, ← hwithin'.2]
    exact hsums
  cases hperUser : a.perUserTime with
  | none =>
      have hwithin : a.withinContest = some (a.contestStart, a.contestStop) := by
        rw [withinContest, hperUser]
      have honce := hshifted _ _ hwithin fun perUserTime hmem => by simp [hperUser] at hmem
      rw [intended, hperUser]
      dsimp only
      rw [ok_bind]
      dsimp only
      rw [honce]
      rfl
  | some perUserTime =>
      cases hstarting : a.startingTime with
      | none =>
          refine absurd ⟨fun _ _ startingTime hmem => ?_, fun start stop hwithin => ?_⟩ hrange
          · simp [hstarting] at hmem
          · simp [withinContest, hperUser, hstarting] at hwithin
      | some startingTime =>
          rw [intended, hperUser, hstarting]
          dsimp only
          by_cases hsum : IsDatetime (startingTime + perUserTime)
          · have hwithin : a.withinContest = some
                (min (max startingTime a.contestStart) a.contestStop,
                  min (max (startingTime + perUserTime) a.contestStart) a.contestStop) := by
              rw [withinContest, hperUser, hstarting]
            have honce := hshifted _ _ hwithin fun perUserTime' hmem startingTime' hmem' => by
              rw [hperUser, Option.mem_some_iff] at hmem
              rw [hstarting, Option.mem_some_iff] at hmem'
              rwa [← hmem, ← hmem']
            rw [datetimeSum_eq hsum, ok_bind]
            show (do
              let result ← a.onceStarted timestamp _ _
              a.withAnalysis timestamp result) = _
            rw [honce]
            rfl
          · rw [datetimeSum_overflows hsum]
            rfl

/-- What is returned is read off the time line. -/
theorem Asserted.eq_phaseAt (h : a.Asserted) {result : ActualPhase}
    (hresult : a.computeActualPhase timestamp = .ok result) : result = a.phaseAt timestamp := by
  by_cases hrange : a.StaysInRange
  · rw [h.computeActualPhase_eq hrange, Except.ok.injEq] at hresult
    exact hresult.symm
  · rw [h.computeActualPhase_overflows hrange] at hresult
    cases hresult

/-- The user competes until the end of the window. -/
theorem Asserted.competing (h : a.Asserted) (hzero : (a.phaseAt timestamp).actualPhase = 0) :
    ∃ start stop, a.window = some (start, stop) ∧
      (a.phaseAt timestamp).currentPhaseEnd = some stop := by
  have hordered := h.ordered
  unfold phaseAt periodAt at hzero ⊢
  unfold competition at hzero hordered ⊢
  cases hwindow : a.window with
  | none =>
      have hmem :=
        Timeline.phase_mem timestamp (-2) none ([(Cut.before a.contestStart, -1)] ++ a.afterwards)
      rw [hwindow] at hzero
      dsimp only at hzero
      rw [hzero] at hmem
      unfold afterwards at hmem
      split at hmem
      · simp at hmem
      · simp at hmem
  | some times =>
      obtain ⟨start, stop⟩ := times
      refine ⟨start, stop, rfl, ?_⟩
      rw [hwindow] at hzero hordered
      dsimp only [List.cons_append, List.nil_append] at hzero hordered ⊢
      by_cases hcontest : (Cut.before a.contestStart).Passed timestamp
      · rw [Timeline.periodAt_of_passed hcontest] at hzero ⊢
        by_cases hstart : (Cut.before start).Passed timestamp
        · rw [Timeline.periodAt_of_passed hstart] at hzero ⊢
          by_cases hstop : (Cut.after stop).Passed timestamp
          · rw [Timeline.periodAt_of_passed hstop] at hzero
            have hone := hordered.tail.tail.tail.le_phase (some (Cut.after stop).time) timestamp
            omega
          · rw [Timeline.periodAt_of_not_passed hstop]
            rfl
        · rw [Timeline.periodAt_of_not_passed hstart] at hzero
          cases hzero
      · rw [Timeline.periodAt_of_not_passed hcontest] at hzero
        cases hzero

end PhaseArguments

/-- The interval that comes with a phase. -/
def ActualPhase.period (result : ActualPhase) : Period ℤ ℤ :=
  ⟨result.actualPhase, result.currentPhaseBegin, result.currentPhaseEnd⟩

/-- Where the sums stay in range, the phases partition the time: `compute_actual_phase` raises at no
time, the phase never goes back, the time lies in its interval, the times strictly inside of it have
the same phase and interval, and those outside have another phase. -/
theorem phases_partition_time (a : PhaseArguments) (h : a.Asserted) (hrange : a.StaysInRange) :
    ∃ phaseAt : ℤ → ActualPhase, ∀ timestamp,
      a.computeActualPhase timestamp = .ok (phaseAt timestamp) ∧
      (∀ later, timestamp ≤ later →
        (phaseAt timestamp).actualPhase ≤ (phaseAt later).actualPhase) ∧
      (phaseAt timestamp).period.Contains timestamp ∧
      (∀ other, (phaseAt timestamp).period.Inside other →
        (phaseAt other).period = (phaseAt timestamp).period) ∧
      ∀ other, ¬(phaseAt timestamp).period.Contains other →
        (phaseAt other).actualPhase ≠ (phaseAt timestamp).actualPhase := by
  refine ⟨a.phaseAt, fun timestamp => ⟨h.computeActualPhase_eq hrange, ?_, ?_, ?_, ?_⟩⟩
  · intro later hle
    exact h.ordered.phase_mono hle
  · refine Timeline.contains_periodAt fun b hb => ?_
    cases hb
  · intro other hinside
    exact h.ordered.periodAt_eq_of_inside hinside
  · intro other houtside
    refine h.ordered.phase_ne_of_not_contains (fun b hb => ?_) houtside
    cases hb

/-- A user with a time of one's own, and an analysis mode after the contest. -/
def usacoArguments : PhaseArguments where
  contestStart := 0
  contestStop := 18000
  analysisStart := some 20000
  analysisStop := some 30000
  perUserTime := some 7200
  startingTime := some 3600
  delayTime := 0
  extraTime := 600

theorem usacoArguments_asserted : usacoArguments.Asserted where
  contest := by decide
  perUserTime := by
    intro perUserTime hperUserTime
    cases hperUserTime
    decide
  delayTime := by decide
  extraTime := by decide
  analysis := by
    intro analysisStart hanalysisStart
    cases hanalysisStart
    exact ⟨by decide, 30000, rfl, by decide⟩

theorem usaco_phases_partition_time :
    usacoArguments.Asserted ∧
      ∃ phaseAt : ℤ → ActualPhase,
        usacoArguments.computeActualPhase 11400 = .ok (phaseAt 11400) ∧
          (phaseAt 3600).actualPhase ≤ (phaseAt 11400).actualPhase := by
  have hrange : usacoArguments.StaysInRange := by
    refine ⟨fun perUserTime hperUser startingTime hstarting => ?_, fun start stop hwithin => ?_⟩
    · cases hperUser
      cases hstarting
      decide
    · cases hwithin
      decide
  obtain ⟨phaseAt, h⟩ := phases_partition_time usacoArguments usacoArguments_asserted hrange
  exact ⟨usacoArguments_asserted, phaseAt, (h 11400).1, (h 3600).2.1 11400 (by decide)⟩

/-- A user is delayed past the year 9999. -/
def overdelayedArguments : PhaseArguments :=
  { usacoArguments with delayTime := 253402300800000000 }

/-- The time at which such a user would start is no `datetime`. -/
theorem overdelayed_phase_raises :
    ¬∀ (a : PhaseArguments) (timestamp : ℤ), a.Asserted →
      ∃ result, a.computeActualPhase timestamp = .ok result := by
  intro hall
  have hasserted : overdelayedArguments.Asserted :=
    ⟨usacoArguments_asserted.contest, usacoArguments_asserted.perUserTime, by decide,
      usacoArguments_asserted.extraTime, usacoArguments_asserted.analysis⟩
  obtain ⟨result, hresult⟩ := hall overdelayedArguments 0 hasserted
  have hraises : overdelayedArguments.computeActualPhase 0 =
      .error (.overflowError "date value out of range") := by decide
  rw [hraises] at hresult
  cases hresult

end Server
end ContestManagement
