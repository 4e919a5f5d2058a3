import ContestManagement.Server.LimitChecks
import ContestManagement.Server.Phases

/-!
# The last minutes of a participation

`is_last_minutes` of `cms/server/contest/submission/check.py` lifts the interval between
submissions at the end of a participation.  It computes this end again, from the columns from which
`compute_actual_phase` computes the end of the phase `0`.

The two agree for a restricted participation whose own time ends within the times of its group.
Nothing is lifted for an unrestricted participation, on which the interval does not bear anyway.
-/

namespace ContestManagement
namespace Server

namespace GroupParticipation

variable (p : GroupParticipation) (timestamp : ℤ)

/-- The arguments with which the handlers call `compute_actual_phase`. -/
def phaseArguments : PhaseArguments where
  contestStart := p.group.start
  contestStop := p.group.stop
  analysisStart := if p.group.analysisEnabled then some p.group.analysisStart else none
  analysisStop := if p.group.analysisEnabled then some p.group.analysisStop else none
  perUserTime := p.group.perUserTime
  startingTime := p.startingTime
  delayTime := p.delayTime
  extraTime := p.extraTime

/-- The time that the user has after starting ends within the times of the group. -/
def EndsWithinGroup : Prop :=
  ∀ perUserTime ∈ p.group.perUserTime, ∀ startingTime ∈ p.startingTime,
    p.group.start ≤ startingTime + perUserTime ∧ startingTime + perUserTime ≤ p.group.stop

/-- The last minutes are those before the end of the phase `0`. -/
def LastMinutesAgree : Prop :=
  ∀ grace result, p.gracePeriod = some grace →
    p.phaseArguments.computeActualPhase timestamp = .ok result → result.actualPhase = 0 →
      ∃ phaseEnd, result.currentPhaseEnd = some phaseEnd ∧
        p.isLastMinutes timestamp = .ok (decide (phaseEnd - timestamp ≤ grace))

variable {p timestamp}

/-- The constraints of the tables give the assertions of `compute_actual_phase`. -/
theorem phaseArguments_asserted (p : GroupParticipation) : p.phaseArguments.Asserted where
  contest := p.group.start_le_stop
  perUserTime := p.group.perUserTime_nonneg
  delayTime := p.delayTime_nonneg
  extraTime := p.extraTime_nonneg
  analysis := by
    intro analysisStart hanalysisStart
    unfold phaseArguments at hanalysisStart ⊢
    by_cases henabled : p.group.analysisEnabled = true
    · rw [if_pos henabled, Option.mem_some_iff] at hanalysisStart
      rw [← hanalysisStart, if_pos henabled]
      exact ⟨p.group.stop_le_analysisStart, p.group.analysisStop, if_pos henabled,
        p.group.analysisStart_le_analysisStop⟩
    · rw [if_neg henabled] at hanalysisStart
      cases hanalysisStart

/-- The end of a time that lies within the group, as the window has it. -/
theorem EndsWithinGroup.endTime_eq (h : p.EndsWithinGroup) {start stop : ℤ}
    (hwindow : p.phaseArguments.window = some (start, stop)) :
    ∃ endTime, p.endTime = .ok endTime ∧ endTime + (p.delayTime + p.extraTime) = stop := by
  unfold EndsWithinGroup at h
  unfold PhaseArguments.window PhaseArguments.withinContest phaseArguments at hwindow
  unfold endTime
  cases hperUser : p.group.perUserTime with
  | none =>
      rw [hperUser] at hwindow
      simp only [Option.map_some, Option.some.injEq, Prod.mk.injEq] at hwindow
      refine ⟨p.group.stop, rfl, ?_⟩
      omega
  | some perUserTime =>
      cases hstarting : p.startingTime with
      | none => simp [hperUser, hstarting] at hwindow
      | some startingTime =>
          have hwithin := h perUserTime hperUser startingTime hstarting
          rw [hperUser, hstarting] at hwindow
          simp only [Option.map_some, Option.some.injEq, Prod.mk.injEq] at hwindow
          refine ⟨startingTime + perUserTime, rfl, ?_⟩
          omega

theorem isLastMinutes_unrestricted (h : p.unrestricted = true) :
    p.isLastMinutes timestamp = .ok false := by
  unfold isLastMinutes
  rw [h]

theorem isLastMinutes_restricted (h : p.unrestricted = false) {grace endTime : ℤ}
    (hgrace : p.gracePeriod = some grace) (hend : p.endTime = .ok endTime) :
    p.isLastMinutes timestamp =
      .ok (decide (endTime + (p.delayTime + p.extraTime) - timestamp ≤ grace)) := by
  unfold isLastMinutes
  rw [h, hgrace]
  dsimp only
  rw [hend]
  rfl

/-- Five hours of contest, in seconds, and a grace period of fifteen minutes. -/
def fiveHours (perUserTime : Option ℤ) (h : ∀ time ∈ perUserTime, 0 ≤ time) : Group where
  start := 0
  stop := 18000
  analysisEnabled := false
  analysisStart := 20000
  analysisStop := 30000
  perUserTime := perUserTime
  start_le_stop := by decide
  stop_le_analysisStart := by decide
  analysisStart_le_analysisStop := by decide
  perUserTime_nonneg := h

/-- A user who is asked a minute before the end, but whom nothing restricts. -/
def unrestrictedUser : GroupParticipation where
  group := fiveHours none Group.noTime_nonneg
  unrestricted := true
  startingTime := none
  delayTime := 0
  extraTime := 0
  gracePeriod := some 900
  delayTime_nonneg := by decide
  extraTime_nonneg := by decide

/-- A user who has two hours, and who starts one hour before the end of the contest. -/
def lateUser : GroupParticipation where
  group := fiveHours (some 7200) (by simp)
  unrestricted := false
  startingTime := some 14400
  delayTime := 0
  extraTime := 0
  gracePeriod := some 900
  delayTime_nonneg := by decide
  extraTime_nonneg := by decide

/-- A user who has two hours, and who starts after ten minutes. -/
def earlyUser : GroupParticipation :=
  { lateUser with startingTime := some 600 }

/-- The last minutes are those before the end of the phase `0`, for a restricted participation
whose own time ends within the times of its group; an unrestricted one has no last minutes. -/
theorem last_minutes_agree (p : GroupParticipation) (timestamp : ℤ) :
    (p.unrestricted = true → p.isLastMinutes timestamp = .ok false) ∧
      (p.unrestricted = false → p.EndsWithinGroup → p.LastMinutesAgree timestamp) := by
  refine ⟨isLastMinutes_unrestricted, fun hrestricted hwithin => ?_⟩
  intro grace result hgrace hresult hzero
  have hasserted := p.phaseArguments_asserted
  rw [hasserted.eq_phaseAt hresult] at hzero ⊢
  obtain ⟨start, stop, hwindow, hphaseEnd⟩ := hasserted.competing hzero
  obtain ⟨endTime, hendTime, hstop⟩ := hwithin.endTime_eq hwindow
  refine ⟨stop, hphaseEnd, ?_⟩
  rw [isLastMinutes_restricted hrestricted hgrace hendTime, hstop]

theorem earlyUser_last_minutes_agree :
    unrestrictedUser.isLastMinutes 17940 = .ok false ∧ earlyUser.LastMinutesAgree 7000 := by
  refine ⟨(last_minutes_agree unrestrictedUser 17940).1 rfl,
    (last_minutes_agree earlyUser 7000).2 rfl ?_⟩
  intro perUserTime hperUser startingTime hstarting
  cases hperUser
  cases hstarting
  decide

theorem last_minutes_disagree :
    ¬unrestrictedUser.LastMinutesAgree 17940 ∧ ¬lateUser.LastMinutesAgree 17940 := by
  constructor
  · intro h
    obtain ⟨phaseEnd, hend, hlast⟩ :=
      h 900 ⟨0, some 0, some 18000, some 0, some 18000⟩ rfl (by decide) rfl
    rw [← Option.some.inj hend] at hlast
    exact absurd hlast (by decide)
  · intro h
    obtain ⟨phaseEnd, hend, hlast⟩ :=
      h 900 ⟨0, some 14400, some 18000, some 14400, some 18000⟩ rfl (by decide) rfl
    rw [← Option.some.inj hend] at hlast
    exact absurd hlast (by decide)

end GroupParticipation

end Server
end ContestManagement
