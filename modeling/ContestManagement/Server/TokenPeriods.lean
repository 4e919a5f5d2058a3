import Mathlib
import ContestManagement.Server.TokenRuns

/-!
# Periods in floating-point numbers

Periods and tokens are counted in floating-point numbers.  The floor division of two times may be one
less than it should be: three tenths of a second contain a tenth of a second twice.  Up to a time
until which every quotient is exact, the numbers are below `2 ^ 53` and the times that are
computed are `datetime`s, what is reported is the same as with exact numbers.  Periods of whole
seconds are counted exactly for 544 years.
-/

namespace ContestManagement
namespace Server

open Lib Common

namespace TokenArithmetic

theorem python_round {number : ℤ} (h : |number| ≤ 2 ^ 53) : python.round number = number := by
  unfold python
  dsimp only
  rw [Binary64.nearest_of_representable (Binary64.representable_intCast h), Int.floor_intCast]

/-- Periods of whole seconds are counted exactly. -/
theorem python_quotient_seconds {time seconds : ℤ} (hnonneg : 0 ≤ time)
    (hsmall : time < 2 ^ 34 * 1000000) (hpos : 0 < seconds) (hseconds : seconds ≤ 2 ^ 53) :
    python.quotient time (1000000 * seconds) = exact.quotient time (1000000 * seconds) := by
  unfold python
  dsimp only
  rw [floorDiv_totalSeconds hnonneg hsmall hpos hseconds, Int.floor_intCast, exact_quotient]

end TokenArithmetic

namespace TokenRules

/-- Up to a horizon the floating-point numbers are exact, and all times are `datetime`s. -/
structure ExactUntil (rules : TokenRules) (start horizon : ℤ) : Prop where
  quotient : ∀ time, 0 ≤ time → time ≤ horizon - start →
    TokenArithmetic.python.quotient time rules.genInterval = time / rules.genInterval
  periods : rules.periods .exact start horizon < 2 ^ 53
  tokens : rules.genInitial + rules.genNumber * rules.periods .exact start horizon ≤ 2 ^ 53
  started : IsDatetime start
  generated : IsDatetime (horizon + rules.genInterval)
  expired : IsDatetime (horizon + rules.minInterval)

variable {rules : TokenRules} {start horizon t : ℤ} {history : List ℤ}

/-- What is left may be negative, by no more than the tokens that were played. -/
structure Bounded (rules : TokenRules) (start avail last played : ℤ) : Prop where
  lower : -played ≤ avail
  upper : avail ≤ rules.genInitial + rules.genNumber * rules.periods .exact start last

theorem le_capped {avail played : ℤ} (hplayed : 0 ≤ played) (h : -played ≤ avail) :
    -played ≤ rules.capped avail := by
  unfold capped
  cases hmax : rules.genMax with
  | none => exact h
  | some limit =>
      have hpos := rules.genMax_pos limit hmax
      exact le_min h (by omega)

/-- What was left and what has been generated since. -/
theorem Bounded.generate {avail last played : ℤ} (h : rules.Bounded start avail last played)
    (hle : last ≤ t) :
    rules.Bounded start (avail + rules.generateTokens .exact start last t) t played where
  lower := by
    have hlower := h.lower
    have hgenerated : 0 ≤ rules.generateTokens .exact start last t := generateTokens_nonneg hle
    omega
  upper := by
    have hupper := h.upper
    rw [generateTokens_eq]
    omega

namespace ExactUntil

theorem periods_eq (h : rules.ExactUntil start horizon) (hstart : start ≤ t) (ht : t ≤ horizon) :
    rules.periods .python start t = rules.periods .exact start t :=
  h.quotient (t - start) (by omega) (by omega)

theorem periods_nonneg (hstart : start ≤ t) : 0 ≤ rules.periods .exact start t :=
  Int.ediv_nonneg (by omega) rules.genInterval_pos.le

/-- The tokens that may have been generated are numbers of the format. -/
theorem tokens_le (h : rules.ExactUntil start horizon) (ht : t ≤ horizon) :
    rules.genInitial + rules.genNumber * rules.periods .exact start t ≤ 2 ^ 53 := by
  have hperiods : rules.periods .exact start t ≤ rules.periods .exact start horizon := periods_mono ht
  have hgenerated := Int.mul_le_mul_of_nonneg_left hperiods rules.genNumber_nonneg
  have htokens := h.tokens
  omega

theorem generateTokens_eq_exact (h : rules.ExactUntil start horizon) {last : ℤ}
    (hstart : start ≤ last) (hlast : last ≤ t) (ht : t ≤ horizon) :
    rules.generateTokens .python start last t = rules.generateTokens .exact start last t := by
  have hfirst : 0 ≤ rules.periods .exact start last := periods_nonneg hstart
  have hmono : rules.periods .exact start last ≤ rules.periods .exact start t := periods_mono hlast
  have hlate : rules.periods .exact start t ≤ rules.periods .exact start horizon := periods_mono ht
  have hperiods := h.periods
  have hnumber : TokenArithmetic.python.round
      (rules.periods .exact start t - rules.periods .exact start last) =
        rules.periods .exact start t - rules.periods .exact start last := by
    refine TokenArithmetic.python_round ?_
    rw [abs_of_nonneg (by omega)]
    omega
  unfold generateTokens
  rw [h.periods_eq hstart (hlast.trans ht), h.periods_eq (hstart.trans hlast) ht, hnumber]
  simp only [TokenArithmetic.exact_round]
  refine TokenArithmetic.python_round ?_
  have hnonneg := Int.mul_nonneg rules.genNumber_nonneg hfirst
  have htokens := h.tokens_le ht
  have hinitial := rules.genInitial_nonneg
  have hproduct := Int.mul_nonneg rules.genNumber_nonneg
    (by omega : 0 ≤ rules.periods .exact start t - rules.periods .exact start last)
  rw [abs_of_nonneg hproduct, Int.mul_sub]
  omega

theorem round_eq (h : rules.ExactUntil start horizon) {avail played : ℤ}
    (hbounded : rules.Bounded start avail t played) (hplayed : played ≤ 2 ^ 53)
    (ht : t ≤ horizon) : TokenArithmetic.python.round avail = avail := by
  have hlower := hbounded.lower
  have hupper := hbounded.upper
  have htokens := h.tokens_le ht
  exact TokenArithmetic.python_round (abs_le.2 ⟨by omega, by omega⟩)

theorem simulate_eq_exact (h : rules.ExactUntil start horizon)
    (hstarted : start ≤ t) (ht : t ≤ horizon)
    (htimes : ∀ time ∈ history, start ≤ time ∧ time ≤ t) (hlength : history.length ≤ 2 ^ 53) :
    rules.simulate .python start history = rules.simulate .exact start history ∧
      ∀ state, rules.simulate .exact start history = some state →
        (start ≤ state.2 ∧ state.2 ≤ t) ∧ rules.Bounded start state.1 state.2 history.length := by
  induction history using List.reverseRecOn with
  | nil =>
      refine ⟨rfl, fun state hstate => ?_⟩
      obtain rfl : (rules.genInitial, start) = state := Option.some.inj hstate
      have hinitial := rules.genInitial_nonneg
      refine ⟨⟨le_refl _, hstarted⟩, by simpa using hinitial, ?_⟩
      rw [periods_start, Int.mul_zero, Int.add_zero]
  | append_singleton history time ih =>
      rw [List.length_append, List.length_singleton] at hlength
      obtain ⟨hsame, hkept⟩ := ih
        (fun time' h => htimes time' (List.mem_append_left _ h)) (by omega)
      obtain ⟨hfrom, hto⟩ := htimes time (by simp)
      rw [simulate_append, simulate_append, hsame]
      cases hstate : rules.simulate .exact start history with
      | none => exact ⟨rfl, fun state hnone => by cases hnone⟩
      | some state =>
          obtain ⟨⟨hstart, -⟩, hbounded⟩ := hkept state hstate
          simp only [Option.bind_some, playNext]
          split
          case isFalse => exact ⟨rfl, fun state' hnone => by cases hnone⟩
          case isTrue hle =>
            have hnext := hbounded.generate hle
            have hplayed : (history.length : ℤ) ≤ 2 ^ 53 := by omega
            have hcapped := rules.capped_le
              (state.1 + rules.generateTokens .exact start state.2 time)
            have hlower := rules.le_capped (Int.natCast_nonneg _) hnext.lower
            have hupper := hnext.upper
            have hleft : rules.Bounded start (rules.capped
                (state.1 + rules.generateTokens .exact start state.2 time) - 1) time
                (history.length + 1) := ⟨by omega, by omega⟩
            rw [h.generateTokens_eq_exact hstart hle (hto.trans ht),
              h.round_eq hnext hplayed (hto.trans ht),
              h.round_eq hleft (by omega) (hto.trans ht)]
            refine ⟨rfl, fun state' hstate' => ?_⟩
            rw [← Option.some.inj hstate']
            refine ⟨⟨hfrom, hto⟩, ?_, ?_⟩
            · rw [List.length_append, List.length_singleton]
              exact hleft.lower
            · exact hleft.upper

theorem nextGeneration_eq_exact (h : rules.ExactUntil start horizon) (hstart : start ≤ t)
    (ht : t ≤ horizon) (avail : ℤ) :
    rules.nextGeneration .python start t avail = rules.nextGeneration .exact start t avail := by
  have hnonneg : 0 ≤ rules.periods .exact start t := periods_nonneg hstart
  have hlate : rules.periods .exact start t ≤ rules.periods .exact start horizon := periods_mono ht
  have hperiods := h.periods
  have hround : TokenArithmetic.python.round (rules.periods .exact start t + 1) =
      rules.periods .exact start t + 1 := by
    refine TokenArithmetic.python_round ?_
    rw [abs_of_nonneg (by omega)]
    omega
  unfold nextGeneration
  rw [h.periods_eq hstart ht, hround]
  rfl

/-- The times that are computed are between the start and the horizon, or one interval later. -/
theorem computed_isTime (h : rules.ExactUntil start horizon) (hstart : start ≤ t) (ht : t ≤ horizon)
    (htimes : ∀ time ∈ history, start ≤ time ∧ time ≤ t) (avail : ℤ) :
    ∀ time ∈ (rules.nextGeneration .exact start t avail).toList ++ [rules.expires start history],
      IsDatetime time := by
  have hstarted := h.started
  have hgenerated := h.generated
  have hexpired := h.expired
  have hinterval := rules.genInterval_pos
  have hwait := rules.minInterval_nonneg
  unfold IsDatetime at *
  intro time htime
  rcases List.mem_append.1 htime with hnext | hlast
  · rw [Option.mem_toList] at hnext
    unfold nextGeneration at hnext
    split at hnext
    case isFalse => cases hnext
    case isTrue =>
      have hdiv : rules.genInterval * ((t - start) / rules.genInterval) ≤ t - start :=
        Int.mul_ediv_self_le hinterval.ne'
      have hmul : 0 ≤ rules.genInterval * ((t - start) / rules.genInterval) :=
        Int.mul_nonneg hinterval.le (periods_nonneg hstart)
      have hvalue := Option.some.inj hnext
      simp only [TokenArithmetic.exact_round, TokenRules.periods, TokenArithmetic.exact_quotient,
        Int.mul_add, Int.mul_one] at hvalue
      omega
  · rw [List.mem_singleton] at hlast
    unfold expires at hlast
    split at hlast
    case h_1 last hof =>
      have hbetween := htimes last (List.mem_of_getLast? hof)
      omega
    case h_2 => omega

/-- Up to the horizon the level reports what it would report with exact numbers. -/
theorem tokensAvailable_eq_exact (h : rules.mode = .finite → rules.ExactUntil start horizon)
    (hstart : start ≤ t) (ht : t ≤ horizon)
    (htimes : ∀ time ∈ history, start ≤ time ∧ time ≤ t)
    (hlength : rules.mode = .finite → history.length ≤ 2 ^ 53) :
    rules.tokensAvailable .python start history t = rules.tokensAvailable .exact start history t := by
  cases hmode : rules.mode with
  | disabled => rw [tokensAvailable, tokensAvailable, hmode]
  | infinite => rw [tokensAvailable, tokensAvailable, hmode]
  | finite =>
      have hexact := h hmode
      have hlength := hlength hmode
      obtain ⟨hsame, hkept⟩ := hexact.simulate_eq_exact hstart ht htimes hlength
      cases hstate : rules.simulate .exact start history with
      | none =>
          rw [tokensAvailable, tokensAvailable, hmode, hsame, hstate]
          rfl
      | some state =>
          obtain ⟨⟨hfrom, hto⟩, hbounded⟩ := hkept state hstate
          have hround := hexact.round_eq (hbounded.generate hto) (by omega) ht
          rw [tokensAvailable_finite hmode hstate hto]
          have hpython : rules.tokensAvailable .python start history t =
              some (rules.report .python start history t
                (rules.capped (state.1 + rules.generateTokens .exact start state.2 t))) := by
            refine tokensAvailable_of_isTime hmode (hsame.trans hstate) hto ?_ ?_
            · rw [hexact.generateTokens_eq_exact hfrom hto ht, hround]
            · rw [hexact.nextGeneration_eq_exact hstart ht]
              exact fun time htime =>
                decide_eq_true (hexact.computed_isTime hstart ht htimes _ time htime)
          rw [hpython, report, report, hexact.nextGeneration_eq_exact hstart ht]

end ExactUntil

/-- With periods of whole seconds the numbers are exact for 544 years. -/
theorem exactUntil_of_seconds {seconds : ℤ} (hinterval : rules.genInterval = 1000000 * seconds)
    (hpos : 0 < seconds) (hseconds : seconds ≤ 2 ^ 53) (hyears : horizon - start < 2 ^ 34 * 1000000)
    (hperiods : rules.periods .exact start horizon < 2 ^ 53)
    (htokens : rules.genInitial + rules.genNumber * rules.periods .exact start horizon ≤ 2 ^ 53)
    (hstarted : IsDatetime start) (hgenerated : IsDatetime (horizon + rules.genInterval))
    (hexpired : IsDatetime (horizon + rules.minInterval)) : rules.ExactUntil start horizon where
  quotient time hnonneg hle := by
    rw [hinterval]
    exact TokenArithmetic.python_quotient_seconds hnonneg (by omega) hpos hseconds
  periods := hperiods
  tokens := htokens
  started := hstarted
  generated := hgenerated
  expired := hexpired

end TokenRules

/-! ## Both levels -/

namespace TokenSetup

/-- The numbers of both levels are exact up to a horizon, whatever the task. -/
structure ExactUntil (setup : TokenSetup) (horizon : ℤ) : Prop where
  contest : setup.contest.mode = .finite → setup.contest.ExactUntil setup.start horizon
  task : ∀ task, (setup.task task).mode = .finite →
    (setup.task task).ExactUntil setup.start horizon

variable {setup : TokenSetup} {horizon timestamp : ℤ} {tokens : List Token} {task : ℕ}

theorem mem_played {token : Token} (h : token ∈ played tokens timestamp) : token ∈ tokens := by
  unfold played at h
  rw [List.mem_insertionSort] at h
  exact List.mem_of_mem_filter h

theorem length_played_le : (played tokens timestamp).length ≤ tokens.length := by
  unfold played
  rw [List.length_insertionSort]
  exact List.length_filter_le _ _

theorem contestHistory_times
    (h : ∀ token ∈ tokens, setup.start ≤ token.timestamp ∧ token.timestamp ≤ timestamp) :
    ∀ time ∈ contestHistory tokens timestamp, setup.start ≤ time ∧ time ≤ timestamp := by
  intro time htime
  obtain ⟨token, htoken, rfl⟩ := List.mem_map.1 htime
  exact h token (mem_played htoken)

theorem taskHistory_times
    (h : ∀ token ∈ tokens, setup.start ≤ token.timestamp ∧ token.timestamp ≤ timestamp) (task : ℕ) :
    ∀ time ∈ setup.taskHistory tokens task timestamp, setup.start ≤ time ∧ time ≤ timestamp := by
  intro time htime
  obtain ⟨token, htoken, rfl⟩ := List.mem_map.1 htime
  exact h token (mem_played (List.mem_of_mem_filter htoken))

theorem length_contestHistory_le : (contestHistory tokens timestamp).length ≤ tokens.length := by
  rw [contestHistory, List.length_map]
  exact length_played_le

theorem length_taskHistory_le :
    (setup.taskHistory tokens task timestamp).length ≤ tokens.length := by
  rw [taskHistory, List.length_map]
  exact (List.length_filter_le _ _).trans length_played_le

section

variable (h : setup.ExactUntil horizon) (hstart : setup.start ≤ timestamp)
  (hle : timestamp ≤ horizon)
  (htimes : ∀ token ∈ tokens, setup.start ≤ token.timestamp ∧ token.timestamp ≤ timestamp)

include h hstart hle htimes

theorem contestTokens_eq_exact
    (hlength : setup.contest.mode = .finite → (contestHistory tokens timestamp).length ≤ 2 ^ 53) :
    setup.contestTokens .python tokens timestamp = setup.contestTokens .exact tokens timestamp :=
  TokenRules.ExactUntil.tokensAvailable_eq_exact h.contest hstart hle (contestHistory_times htimes)
    hlength

theorem taskTokens_eq_exact
    (hlength : (setup.task task).mode = .finite →
      (setup.taskHistory tokens task timestamp).length ≤ 2 ^ 53) :
    setup.taskTokens .python tokens task timestamp = setup.taskTokens .exact tokens task timestamp :=
  TokenRules.ExactUntil.tokensAvailable_eq_exact (h.task task) hstart hle
    (taskHistory_times htimes task) hlength

/-- Up to the horizon both levels report what they would report with exact numbers. -/
theorem tokensAvailable_eq_exact
    (hlength : setup.contest.mode = .finite → (contestHistory tokens timestamp).length ≤ 2 ^ 53)
    (hlength' : (setup.task task).mode = .finite →
      (setup.taskHistory tokens task timestamp).length ≤ 2 ^ 53) :
    setup.tokensAvailable .python tokens task timestamp =
      setup.tokensAvailable .exact tokens task timestamp := by
  rw [tokensAvailable, tokensAvailable, contestTokens_eq_exact h hstart hle htimes hlength,
    taskTokens_eq_exact h hstart hle htimes hlength']

end

/-! ## Runs -/

theorem acceptToken_eq {locked : Bool} {submission : ℕ} {token : Token}
    (h : setup.acceptToken .exact tokens locked submission timestamp = .ok token) :
    token = ⟨timestamp, submission⟩ := by
  unfold acceptToken at h
  split at h
  case isTrue => cases h
  case isFalse =>
    split at h
    case h_1 => cases h
    case h_2 =>
      split at h
      case isTrue => cases h
      case isFalse =>
        split at h
        case isTrue => cases h
        case isFalse => exact (Except.ok.inj h).symm

/-- Tokens that were played regularly are not before the start. -/
theorem start_le_of_reachable {s : TokenState} (h : (setup.machine .exact).Reachable s) :
    setup.start ≤ s.clock ∧ ∀ token ∈ s.tokens, setup.start ≤ token.timestamp := by
  refine Machine.Reachable.invariant
    (I := fun s => setup.start ≤ s.clock ∧ ∀ token ∈ s.tokens, setup.start ≤ token.timestamp)
    (fun s hinit => ?_) (fun s request t hs hstep => ?_) h
  · obtain ⟨htokens, hclock⟩ := hinit
    rw [htokens, hclock]
    exact ⟨le_refl _, by simp⟩
  · obtain ⟨hclock, htokens⟩ := hs
    change setup.decide .exact s request = some t at hstep
    unfold TokenSetup.decide at hstep
    split at hstep
    case isFalse => cases hstep
    case isTrue hle =>
      split at hstep
      case h_1 token haccept =>
        have htoken : token = ⟨request.timestamp, request.submission⟩ :=
          acceptToken_eq haccept
        rw [← Option.some.inj hstep]
        refine ⟨hclock.trans hle, fun token' htoken' => ?_⟩
        rcases List.mem_append.1 htoken' with hold | hnew
        · exact htokens token' hold
        · rw [List.mem_singleton.1 hnew, htoken]
          exact hclock.trans hle
      case h_2 =>
        rw [← Option.some.inj hstep]
        exact ⟨hclock.trans hle, htokens⟩

/-- A level never has more tokens played than there are numbers. -/
theorem LevelKept.length_le {rules : TokenRules} {start clock : ℤ} {history : List ℤ}
    (h : LevelKept rules start history clock)
    (hexact : rules.mode = .finite → rules.ExactUntil start horizon) (hle : clock ≤ horizon)
    (hmode : rules.mode = .finite) : history.length ≤ 2 ^ 53 := by
  obtain ⟨avail, last, -, hnonneg, hlast, hbound⟩ := (h.finite hmode).simulated
  have hpast := (h.finite hmode).past
  have htokens := (hexact hmode).tokens_le (hlast ▸ hpast.trans hle)
  omega

variable {s : TokenState}

theorem Kept.tokensAvailable_eq_exact (hkept : setup.Kept s) (hreach : (setup.machine .exact).Reachable s)
    (h : setup.ExactUntil horizon) (htime : s.clock ≤ timestamp) (hle : timestamp ≤ horizon) (task : ℕ) :
    setup.tokensAvailable .python s.tokens task timestamp =
      setup.tokensAvailable .exact s.tokens task timestamp := by
  obtain ⟨hclock, htokens⟩ := start_le_of_reachable hreach
  refine TokenSetup.tokensAvailable_eq_exact h (hclock.trans htime) hle
    (fun token htoken => ⟨htokens token htoken, (hkept.past token htoken).trans htime⟩)
    (fun hmode => ?_) (fun hmode => ?_)
  · rw [contestHistory, hkept.played_eq htime]
    exact hkept.contest.length_le h.contest (htime.trans hle) hmode
  · rw [taskHistory, hkept.played_eq htime]
    exact (hkept.task task).length_le (h.task task) (htime.trans hle) hmode

theorem kept_of_reachable (h : (setup.machine .exact).Reachable s) : setup.Kept s :=
  h.invariant (fun _ hinit => Kept.of_init hinit) fun _ _ _ hs hmove => hs.decide hmove

theorem clock_le_of_decide {arith : TokenArithmetic} {request : TokenRequest} {t : TokenState}
    (h : setup.decide arith s request = some t) :
    s.clock ≤ request.timestamp ∧ request.timestamp = t.clock := by
  unfold TokenSetup.decide at h
  split at h
  case isFalse => cases h
  case isTrue hle =>
    split at h
    · exact ⟨hle, by rw [← Option.some.inj h]⟩
    · exact ⟨hle, by rw [← Option.some.inj h]⟩

/-- A run up to the horizon decides as it would with exact numbers. -/
theorem reachable_exact (h : setup.ExactUntil horizon) (hreach : (setup.machine .python).Reachable s)
    (hle : s.clock ≤ horizon) : (setup.machine .exact).Reachable s := by
  revert hle
  refine hreach.invariant (I := fun s => s.clock ≤ horizon → (setup.machine .exact).Reachable s)
    (fun s (hinit : (setup.machine .python).init s) _ => ⟨s, hinit, .refl s⟩)
    fun s request t ih hstep hle => ?_
  obtain ⟨hbefore, hclock⟩ := clock_le_of_decide hstep
  have hexact := ih (hbefore.trans (hclock ▸ hle))
  have hsame := (kept_of_reachable hexact).tokensAvailable_eq_exact hexact h hbefore (hclock ▸ hle)
    (setup.taskOf request.submission)
  refine hexact.extend (.step (.refl s) trivial (a := request) ?_)
  rw [← hstep]
  show setup.decide .exact s request = setup.decide .python s request
  unfold TokenSetup.decide acceptToken
  rw [hsame]

end TokenSetup

end Server
end ContestManagement
