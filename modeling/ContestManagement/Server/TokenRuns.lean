import Mathlib.Data.List.Chain
import ContestManagement.Server.Tokening

/-!
# Token runs

At a level with a finite number of tokens, the simulation of the tokens played so far ends with a
number that is not negative and with no more than the initial and the generated tokens.  A token
is accepted only when both levels have one left, so playing it keeps this at both levels; between
two tokens the number only grows, up to the cap, which is positive.
-/

namespace ContestManagement
namespace Server

open Lib

/-! ## The simulation -/

namespace TokenRules

variable {rules : TokenRules} {start : ℤ}

theorem periods_mono {time time' : ℤ} (h : time ≤ time') :
    rules.periods .exact start time ≤ rules.periods .exact start time' :=
  Int.ediv_le_ediv rules.genInterval_pos (by omega)

theorem periods_start : rules.periods .exact start start = 0 := by
  simp [periods]

theorem generateTokens_nonneg {begin stop : ℤ} (h : begin ≤ stop) :
    0 ≤ rules.generateTokens .exact start begin stop := by
  have hperiods : rules.periods .exact start begin ≤ rules.periods .exact start stop := periods_mono h
  unfold generateTokens
  simp only [TokenArithmetic.exact_round]
  exact Int.mul_nonneg rules.genNumber_nonneg (by omega)

theorem generateTokens_eq (begin stop : ℤ) :
    rules.generateTokens .exact start begin stop =
      rules.genNumber * rules.periods .exact start stop -
        rules.genNumber * rules.periods .exact start begin := by
  simp only [generateTokens, TokenArithmetic.exact_round]
  rw [Int.mul_sub]

theorem capped_nonneg {avail : ℤ} (h : 0 ≤ avail) : 0 ≤ rules.capped avail := by
  unfold capped
  cases hmax : rules.genMax with
  | none => exact h
  | some limit =>
      have hpos : 0 < limit := rules.genMax_pos limit hmax
      dsimp only
      omega

theorem capped_le (avail : ℤ) : rules.capped avail ≤ avail := by
  unfold capped
  cases rules.genMax with
  | none => exact le_refl _
  | some limit => exact min_le_left _ _

/-- What a level with a finite number of tokens reports, when the times that are computed are times. -/
theorem tokensAvailable_of_isTime {arith : TokenArithmetic} {history : List ℤ}
    (hmode : rules.mode = .finite) {avail last t left : ℤ}
    (hsimulate : rules.simulate arith start history = some (avail, last)) (hlast : last ≤ t)
    (hleft : rules.capped (arith.round (avail + rules.generateTokens arith start last t)) = left)
    (htime : ∀ time ∈ (rules.nextGeneration arith start t left).toList ++
      [rules.expires start history], arith.isTime time = true) :
    rules.tokensAvailable arith start history t = some (rules.report arith start history t left) := by
  have hall := List.all_eq_true.2 htime
  subst hleft
  unfold tokensAvailable
  rw [hmode, hsimulate]
  simp only [Option.bind_eq_bind, Option.bind_some, if_pos hlast]
  rw [if_pos hall]

theorem tokensAvailable_finite {history : List ℤ} (hmode : rules.mode = .finite) {avail last t : ℤ}
    (hsimulate : rules.simulate .exact start history = some (avail, last)) (hlast : last ≤ t) :
    rules.tokensAvailable .exact start history t = some (rules.report .exact start history t
      (rules.capped (avail + rules.generateTokens .exact start last t))) :=
  tokensAvailable_of_isTime hmode hsimulate hlast rfl fun _ _ => rfl

theorem simulate_append (arith : TokenArithmetic) (history : List ℤ) (time : ℤ) :
    rules.simulate arith start (history ++ [time]) =
      (rules.simulate arith start history).bind fun state => rules.playNext arith start state time := by
  simp [simulate, List.foldlM_append]

/-- What holds of the tokens of a level with a finite number of tokens, up to a time. -/
structure Kept (rules : TokenRules) (start : ℤ) (history : List ℤ) (clock : ℤ) : Prop where
  simulated : ∃ avail last, rules.simulate .exact start history = some (avail, last) ∧ 0 ≤ avail ∧
    last = history.getLast?.getD start ∧
    avail + history.length ≤ rules.genInitial + rules.genNumber * rules.periods .exact start last
  started : start ≤ history.getLast?.getD start
  past : history.getLast?.getD start ≤ clock
  maxNumber : ∀ limit ∈ rules.maxNumber, history.length ≤ limit
  minInterval : history.IsChain fun a b => a + rules.minInterval ≤ b

namespace Kept

variable {history : List ℤ} {clock timestamp : ℤ}

theorem nil : rules.Kept start [] start where
  simulated := by
    refine ⟨rules.genInitial, start, rfl, rules.genInitial_nonneg, rfl, ?_⟩
    rw [periods_start]
    simp
  started := le_refl _
  past := le_refl _
  maxNumber limit hlimit := by
    have hpos := rules.maxNumber_pos limit hlimit
    simp only [List.length_nil]
    omega
  minInterval := List.IsChain.nil

theorem later (h : rules.Kept start history clock) (hle : clock ≤ timestamp) :
    rules.Kept start history timestamp :=
  { h with past := h.past.trans hle }

/-- The tokens left at a time, before the maximum is taken into account. -/
theorem left (h : rules.Kept start history clock) (hle : clock ≤ timestamp) :
    ∃ avail last, rules.simulate .exact start history = some (avail, last) ∧ last ≤ timestamp ∧
      0 ≤ rules.capped (avail + rules.generateTokens .exact start last timestamp) ∧
      rules.capped (avail + rules.generateTokens .exact start last timestamp) + history.length ≤
        rules.genInitial + rules.genNumber * rules.periods .exact start timestamp := by
  obtain ⟨avail, last, hsimulate, hnonneg, hlast, hbound⟩ := h.simulated
  have hpast : last ≤ timestamp := by
    rw [hlast]
    exact h.past.trans hle
  have hgenerated : 0 ≤ rules.generateTokens .exact start last timestamp := generateTokens_nonneg hpast
  have hcapped := rules.capped_le (avail + rules.generateTokens .exact start last timestamp)
  refine ⟨avail, last, hsimulate, hpast, capped_nonneg (by omega), ?_⟩
  rw [generateTokens_eq] at hcapped ⊢
  omega

theorem tokensAvailable_eq (h : rules.Kept start history clock) (hmode : rules.mode = .finite)
    (hle : clock ≤ timestamp) :
    ∃ avail last, rules.simulate .exact start history = some (avail, last) ∧ last ≤ timestamp ∧
      0 ≤ rules.capped (avail + rules.generateTokens .exact start last timestamp) ∧
      rules.tokensAvailable .exact start history timestamp = some (rules.report .exact start history
        timestamp (rules.capped (avail + rules.generateTokens .exact start last timestamp))) := by
  obtain ⟨avail, last, hsimulate, hpast, hnonneg, -⟩ := h.left hle
  exact ⟨avail, last, hsimulate, hpast, hnonneg, tokensAvailable_finite hmode hsimulate hpast⟩

theorem limited_nonneg (h : rules.Kept start history clock) {avail : ℤ} (hnonneg : 0 ≤ avail)
    (next : Option ℤ) : 0 ≤ (rules.limited history.length avail next).1 := by
  unfold limited
  cases hmax : rules.maxNumber with
  | none => exact hnonneg
  | some limit =>
      have hlimit := h.maxNumber limit hmax
      dsimp only
      split
      · dsimp only
        omega
      · exact hnonneg

/-- A level reports a number that is not negative. -/
theorem tokens_nonneg (h : rules.Kept start history clock) (hmode : rules.mode = .finite)
    (hle : clock ≤ timestamp) :
    ∃ available, rules.tokensAvailable .exact start history timestamp = some available ∧
      0 ≤ available.tokens := by
  obtain ⟨avail, last, -, -, hnonneg, heq⟩ := h.tokensAvailable_eq hmode hle
  exact ⟨_, heq, h.limited_nonneg hnonneg _⟩

/-- Playing a token that the level reports keeps the rules. -/
theorem play (h : rules.Kept start history clock) (hmode : rules.mode = .finite)
    (hle : clock ≤ timestamp) {available : Availability}
    (havailable : rules.tokensAvailable .exact start history timestamp = some available)
    (htokens : available.tokens ≠ 0) (hexpiration : available.expiration = none) :
    rules.Kept start (history ++ [timestamp]) timestamp := by
  obtain ⟨avail, last, hsimulate, hpast, hnonneg, heq⟩ := h.tokensAvailable_eq hmode hle
  obtain ⟨avail', last', hsimulate', -, -, hbound⟩ := h.left hle
  rw [hsimulate, Option.some.injEq, Prod.mk.injEq] at hsimulate'
  obtain ⟨rfl, rfl⟩ := hsimulate'
  rw [heq, Option.some.injEq] at havailable
  subst havailable
  generalize hleft : rules.capped (avail + rules.generateTokens .exact start last timestamp) = left
    at hnonneg hbound heq htokens hexpiration
  have hpositive : 0 < (rules.limited history.length left
      (rules.nextGeneration .exact start timestamp left)).1 :=
    lt_of_le_of_ne (h.limited_nonneg hnonneg _) (Ne.symm htokens)
  have hexpired : rules.expires start history ≤ timestamp := by
    by_contra hwait
    have hzero : ¬ ((rules.limited history.length left
        (rules.nextGeneration .exact start timestamp left)).1 = 0 ∧ (rules.limited history.length left
        (rules.nextGeneration .exact start timestamp left)).2 = none) := fun hboth => htokens hboth.1
    simp [report, hwait, hzero] at hexpiration
  refine ⟨?_, ?_, ?_, ?_, ?_⟩
  · refine ⟨left - 1, timestamp, ?_, ?_, by simp, ?_⟩
    · rw [simulate_append, hsimulate, Option.bind_some, playNext, if_pos hpast]
      simp only [TokenArithmetic.exact_round, hleft]
    · -- The maximum only lowers the number.
      unfold limited at hpositive
      cases hmax : rules.maxNumber with
      | none =>
          simp only [hmax] at hpositive
          omega
      | some limit =>
          simp only [hmax] at hpositive
          split at hpositive
          · dsimp only at hpositive
            omega
          · dsimp only at hpositive
            omega
    · simp only [List.length_append, List.length_singleton]
      push_cast
      omega
  · have hstarted := h.started
    have hpast' := h.past
    simp only [List.getLast?_append, List.getLast?_singleton, Option.some_or, Option.getD_some]
    omega
  · simp
  · intro limit hlimit
    unfold limited at hpositive
    rw [Option.mem_def] at hlimit
    have hbefore := h.maxNumber limit hlimit
    simp only [hlimit] at hpositive
    simp only [List.length_append, List.length_singleton]
    push_cast
    split at hpositive
    · dsimp only at hpositive
      omega
    · dsimp only at hpositive
      omega
  · refine h.minInterval.append (List.isChain_singleton _) fun time htime next hnext => ?_
    rw [Option.mem_def] at htime
    unfold expires at hexpired
    rw [htime] at hexpired
    simp only [List.head?_singleton, Option.mem_def, Option.some.injEq] at hnext
    subst hnext
    exact hexpired

end Kept

end TokenRules

/-! ## Runs -/

/-- What a run may play at one level: an infinite number of tokens has no rules. -/
structure RespectsRules (rules : TokenRules) (start : ℤ) (history : List ℤ) (clock : ℤ) :
    Prop where
  disabled : rules.mode = .disabled → history = []
  maxNumber : rules.mode = .finite → ∀ limit ∈ rules.maxNumber, history.length ≤ limit
  minInterval : rules.mode = .finite → history.IsChain fun a b => a + rules.minInterval ≤ b
  generated : rules.mode = .finite →
    history.length ≤ rules.genInitial + rules.genNumber * rules.periods .exact start clock

/-- What a level may report. -/
def Reported (rules : TokenRules) (available : Availability) : Prop :=
  0 ≤ available.tokens ∨ available.tokens = -1 ∧ rules.mode = .infinite

namespace TokenSetup

/-- The times of the tokens played on a task, in the order in which they were played. -/
def taskTimes (setup : TokenSetup) (tokens : List Token) (task : ℕ) : List ℤ :=
  (tokens.filter fun token => setup.taskOf token.submission = task).map Token.timestamp

/-- Both levels are respected, and what is reported now or later is not negative, or the number is
infinite. -/
structure Respected (setup : TokenSetup) (s : TokenState) : Prop where
  contest : RespectsRules setup.contest setup.start (s.tokens.map Token.timestamp) s.clock
  task : ∀ task,
    RespectsRules (setup.task task) setup.start (setup.taskTimes s.tokens task) s.clock
  reported : ∀ task timestamp, s.clock ≤ timestamp → ∃ contest ofTask,
    setup.contestTokens .exact s.tokens timestamp = some contest ∧ Reported setup.contest contest ∧
      setup.taskTokens .exact s.tokens task timestamp = some ofTask ∧
      Reported (setup.task task) ofTask ∧
      (0 ≤ (merge contest ofTask).tokens ∨ (merge contest ofTask).tokens = -1 ∧
        setup.contest.mode = .infinite ∧ (setup.task task).mode = .infinite)

/-- The invariant of one level. -/
structure LevelKept (rules : TokenRules) (start : ℤ) (history : List ℤ) (clock : ℤ) : Prop where
  disabled : rules.mode = .disabled → history = []
  finite : rules.mode = .finite → rules.Kept start history clock

/-- The invariant of a run. -/
structure Kept (setup : TokenSetup) (s : TokenState) : Prop where
  sorted : s.tokens.Pairwise fun a b => a.timestamp ≤ b.timestamp
  past : ∀ token ∈ s.tokens, token.timestamp ≤ s.clock
  contest : LevelKept setup.contest setup.start (s.tokens.map Token.timestamp) s.clock
  task : ∀ task, LevelKept (setup.task task) setup.start (setup.taskTimes s.tokens task) s.clock

variable {setup : TokenSetup} {s : TokenState} {rules : TokenRules} {start clock timestamp : ℤ}
  {history : List ℤ}

theorem LevelKept.later (h : LevelKept rules start history clock) (hle : clock ≤ timestamp) :
    LevelKept rules start history timestamp :=
  ⟨h.disabled, fun hmode => (h.finite hmode).later hle⟩

theorem LevelKept.reported (h : LevelKept rules start history clock) (hle : clock ≤ timestamp) :
    ∃ available, rules.tokensAvailable .exact start history timestamp = some available ∧
      Reported rules available := by
  cases hmode : rules.mode with
  | disabled => exact ⟨_, by rw [TokenRules.tokensAvailable, hmode], Or.inl (le_refl _)⟩
  | infinite => exact ⟨_, by rw [TokenRules.tokensAvailable, hmode], Or.inr ⟨rfl, hmode⟩⟩
  | finite =>
      obtain ⟨available, heq, hnonneg⟩ := (h.finite hmode).tokens_nonneg hmode hle
      exact ⟨available, heq, Or.inl hnonneg⟩

theorem LevelKept.play (h : LevelKept rules start history clock) (hle : clock ≤ timestamp)
    {available : Availability}
    (havailable : rules.tokensAvailable .exact start history timestamp = some available)
    (htokens : available.tokens ≠ 0) (hexpiration : available.expiration = none) :
    LevelKept rules start (history ++ [timestamp]) timestamp := by
  refine ⟨fun hmode => ?_, fun hmode => (h.finite hmode).play hmode hle havailable htokens
    hexpiration⟩
  rw [TokenRules.tokensAvailable, hmode, Option.some.injEq] at havailable
  subst havailable
  exact absurd rfl htokens

theorem LevelKept.respects (h : LevelKept rules start history clock) :
    RespectsRules rules start history clock where
  disabled := h.disabled
  maxNumber hmode := (h.finite hmode).maxNumber
  minInterval hmode := (h.finite hmode).minInterval
  generated hmode := by
    obtain ⟨avail, last, -, -, hnonneg, hbound⟩ := (h.finite hmode).left (le_refl clock)
    omega

/-- Up to a time that no token has passed, the tokens are read as they were played. -/
theorem Kept.played_eq (h : setup.Kept s) (hle : s.clock ≤ timestamp) :
    played s.tokens timestamp = s.tokens := by
  have hall : (s.tokens.filter fun token => token.timestamp ≤ timestamp) = s.tokens := by
    rw [List.filter_eq_self]
    intro token htoken
    exact decide_eq_true ((h.past token htoken).trans hle)
  rw [played, hall]
  exact h.sorted.insertionSort_eq

theorem Kept.contestTokens_eq (h : setup.Kept s) (hle : s.clock ≤ timestamp) :
    setup.contestTokens .exact s.tokens timestamp =
      setup.contest.tokensAvailable .exact setup.start (s.tokens.map Token.timestamp) timestamp := by
  rw [contestTokens, contestHistory, h.played_eq hle]

theorem Kept.taskTokens_eq (h : setup.Kept s) (hle : s.clock ≤ timestamp) (task : ℕ) :
    setup.taskTokens .exact s.tokens task timestamp =
      (setup.task task).tokensAvailable .exact setup.start (setup.taskTimes s.tokens task) timestamp := by
  rw [taskTokens, taskHistory, h.played_eq hle, taskTimes]

/-- The merged number is one that a level reports. -/
theorem merge_tokens {contestRules taskRules : TokenRules} {contest task : Availability}
    (hcontest : Reported contestRules contest) (htask : Reported taskRules task) :
    0 ≤ (merge contest task).tokens ∨ (merge contest task).tokens = -1 ∧
      contestRules.mode = .infinite ∧ taskRules.mode = .infinite := by
  rcases hcontest with hcontest | ⟨hcontest, hinfinite⟩
  · rcases htask with htask | ⟨htask, hinfinite'⟩
    · left
      grind [merge]
    · left
      grind [merge]
  · rcases htask with htask | ⟨htask, hinfinite'⟩
    · left
      grind [merge]
    · exact Or.inr ⟨by simp [merge, hcontest, htask], hinfinite, hinfinite'⟩

/-- A token is left at both levels, and none has to wait. -/
theorem merge_accepts {contestRules taskRules : TokenRules} {contest task : Availability}
    (hcontest : Reported contestRules contest) (htask : Reported taskRules task)
    (htokens : (merge contest task).tokens ≠ 0) (hexpiration : (merge contest task).expiration = none) :
    (contest.tokens ≠ 0 ∧ contest.expiration = none) ∧
      task.tokens ≠ 0 ∧ task.expiration = none := by
  have hboth : laterExpiration contest.expiration task.expiration = none := by
    grind [merge]
  have hnone : contest.expiration = none ∧ task.expiration = none := by
    cases hc : contest.expiration <;> cases ht : task.expiration <;>
      simp_all [laterExpiration]
  unfold Reported at hcontest htask
  refine ⟨⟨?_, hnone.1⟩, ?_, hnone.2⟩
  · grind [merge]
  · grind [merge]

theorem Kept.respected (h : setup.Kept s) : setup.Respected s where
  contest := h.contest.respects
  task task := (h.task task).respects
  reported task timestamp hle := by
    obtain ⟨contest, hcontest, hreported⟩ := h.contest.reported hle
    obtain ⟨ofTask, htask, hreported'⟩ := (h.task task).reported hle
    refine ⟨contest, ofTask, ?_, hreported, ?_, hreported', merge_tokens hreported hreported'⟩
    · rw [h.contestTokens_eq hle, hcontest]
    · rw [h.taskTokens_eq hle, htask]

/-- A token that is accepted is one that both levels have left. -/
theorem Kept.accepted (h : setup.Kept s) {locked : Bool} {submission : ℕ} {token : Token}
    (hle : s.clock ≤ timestamp)
    (haccept : setup.acceptToken .exact s.tokens locked submission timestamp = .ok token) :
    token = ⟨timestamp, submission⟩ ∧
      LevelKept setup.contest setup.start (s.tokens.map Token.timestamp ++ [timestamp]) timestamp ∧
      LevelKept (setup.task (setup.taskOf submission)) setup.start
        (setup.taskTimes s.tokens (setup.taskOf submission) ++ [timestamp]) timestamp := by
  obtain ⟨contest, hcontest, hreported⟩ := h.contest.reported hle
  obtain ⟨ofTask, htask, hreported'⟩ := (h.task (setup.taskOf submission)).reported hle
  have hmerged : setup.tokensAvailable .exact s.tokens (setup.taskOf submission) timestamp =
      some (merge contest ofTask) := by
    rw [tokensAvailable, h.contestTokens_eq hle, hcontest, h.taskTokens_eq hle, htask]
    rfl
  unfold acceptToken at haccept
  rw [hmerged] at haccept
  split at haccept
  case isTrue => cases haccept
  case isFalse =>
    dsimp only at haccept
    split at haccept
    case isTrue => cases haccept
    case isFalse hfree =>
      split at haccept
      case isTrue => cases haccept
      case isFalse =>
        rw [not_or, Option.not_isSome_iff_eq_none] at hfree
        obtain ⟨⟨hleft, hwait⟩, hleft', hwait'⟩ :=
          merge_accepts hreported hreported' hfree.1 hfree.2
        cases haccept
        exact ⟨rfl, h.contest.play hle hcontest hleft hwait,
          (h.task _).play hle htask hleft' hwait'⟩

theorem Kept.decide {t : TokenState} {request : TokenRequest} (h : setup.Kept s)
    (hstep : setup.decide .exact s request = some t) : setup.Kept t := by
  unfold TokenSetup.decide at hstep
  split at hstep
  case isFalse => cases hstep
  case isTrue hle =>
    split at hstep
    case h_2 =>
      cases hstep
      exact ⟨h.sorted, fun token htoken => (h.past token htoken).trans hle, h.contest.later hle,
        fun task => (h.task task).later hle⟩
    case h_1 token haccept =>
      obtain ⟨rfl, hcontest, htask⟩ := h.accepted hle haccept
      cases hstep
      refine ⟨?_, ?_, ?_, ?_⟩
      · refine List.pairwise_append.2 ⟨h.sorted, List.pairwise_singleton _ _, ?_⟩
        intro a ha b hb
        rw [List.mem_singleton] at hb
        subst hb
        exact (h.past a ha).trans hle
      · intro token htoken
        rcases List.mem_append.1 htoken with hold | hnew
        · exact (h.past token hold).trans hle
        · rw [List.mem_singleton] at hnew
          subst hnew
          exact le_refl _
      · rw [List.map_append]
        exact hcontest
      · intro task
        by_cases hof : setup.taskOf request.submission = task
        · subst hof
          have hplayed : setup.taskTimes (s.tokens ++ [⟨request.timestamp, request.submission⟩])
              (setup.taskOf request.submission) =
              setup.taskTimes s.tokens (setup.taskOf request.submission) ++
                [request.timestamp] := by
            simp [taskTimes]
          rw [hplayed]
          exact htask
        · have hsame : setup.taskTimes (s.tokens ++ [⟨request.timestamp, request.submission⟩])
              task = setup.taskTimes s.tokens task := by
            simp [taskTimes, hof]
          rw [hsame]
          exact (h.task task).later hle

theorem Kept.of_init (h : (setup.machine .exact).init s) : setup.Kept s := by
  obtain ⟨tokens, clock⟩ := s
  obtain ⟨htokens, hclock⟩ := h
  dsimp only at htokens hclock
  subst htokens hclock
  exact ⟨List.Pairwise.nil, by simp, ⟨fun _ => rfl, fun _ => TokenRules.Kept.nil⟩,
    fun task => ⟨fun _ => rfl, fun _ => TokenRules.Kept.nil⟩⟩

/-- Two tokens at first and one each minute, at most three, at least ten seconds apart. -/
def threeTokens : TokenRules where
  mode := .finite
  genInitial := 2
  genNumber := 1
  genInterval := 60000000
  genMax := some 2
  maxNumber := some 3
  minInterval := 10000000
  genInitial_nonneg := by decide
  genNumber_nonneg := by decide
  genInterval_pos := by decide
  genMax_pos := by decide
  genInitial_le := by decide
  maxNumber_pos := by decide
  minInterval_nonneg := by decide

/-- The same parameters, with an infinite number of tokens. -/
def unlimitedTokens : TokenRules :=
  { threeTokens with mode := .infinite, maxNumber := some 1, maxNumber_pos := by decide }

/-- A contest and all its tasks have the same rules, and each submission has a task of its own. -/
def sameRules (rules : TokenRules) : TokenSetup where
  contest := rules
  task _ := rules
  taskOf := id
  start := 0

/-- Requests for tokens on two submissions, one of them too early. -/
def twoRequests : List TokenRequest :=
  [⟨true, 1, 5000000⟩, ⟨true, 2, 6000000⟩, ⟨true, 2, 20000000⟩]

def threeTokensPlayed : TokenState :=
  (((sameRules threeTokens).machine .exact).exec ⟨[], 0⟩ twoRequests).get (by decide +kernel)

def unlimitedTokensPlayed : TokenState :=
  (((sameRules unlimitedTokens).machine .exact).exec ⟨[], 0⟩ twoRequests).get (by decide +kernel)

end TokenSetup

end Server
end ContestManagement
