import Mathlib
import ContestManagement.Lib.FirstTime
import ContestManagement.Server.TokenPeriods

/-!
# The forecast of tokens

As long as nothing else is played, the tokens left at a level are those of the simulation, with
what is generated up to the time, the cap and the maximum.  The number never falls, and it rises
at the end of the generation period unless the cap or the maximum is reached.  The number at both
levels is the smaller one of theirs.
-/

namespace ContestManagement
namespace Server

open Lib

/-- The minimum intervals of a level have passed. -/
def TokenRules.Spaced (rules : TokenRules) (history : List ℤ) (t : ℤ) : Prop :=
  rules.mode = .finite → ∀ time ∈ history, time + rules.minInterval ≤ t

/-- A number of tokens that is not negative, or the mark of an infinite number. -/
def Counted (available : Availability) (now : ℤ) (number : ℤ → ℤ) : Prop :=
  0 ≤ available.tokens ∨ available.tokens = -1 ∧ ∀ t, now ≤ t → number t = -1

theorem TokenRules.Spaced.later {rules : TokenRules} {history : List ℤ} {t u : ℤ}
    (h : rules.Spaced history t) (hle : t ≤ u) : rules.Spaced history u :=
  fun hmode time htime => (h hmode time htime).trans hle

namespace Availability

/-- No token is left and none will be generated; the expiration is to be ignored. -/
def Exhausted (available : Availability) : Prop :=
  available.tokens = 0 ∧ available.nextGenTime = none

/-- What is said of the times to come: `reports` are the results at those times, and `spaced` says
that the minimum intervals have passed. -/
structure Foretells (available : Availability) (reports : ℤ → Option Availability)
    (spaced : ℤ → Prop) (now : ℤ) : Prop where
  reported : ∀ t, now ≤ t → ∃ later, reports t = some later
  next : FirstAfter (fun t => ∃ later, reports t = some later ∧ available.tokens < later.tokens)
    now available.nextGenTime
  possible : ¬ available.Exhausted → (available.expiration = none ↔ spaced now)
  expiration : ¬ available.Exhausted → ∀ time ∈ available.expiration,
    now < time ∧ ∀ t, now ≤ t → (spaced t ↔ time ≤ t)

/-- The same, for the times up to a horizon. -/
structure ForetellsUntil (available : Availability) (reports : ℤ → Option Availability)
    (spaced : ℤ → Prop) (now horizon : ℤ) : Prop where
  reported : ∀ t, now ≤ t → t ≤ horizon → ∃ later, reports t = some later
  next : FirstUntil (fun t => ∃ later, reports t = some later ∧ available.tokens < later.tokens)
    now horizon available.nextGenTime
  possible : ¬ available.Exhausted → (available.expiration = none ↔ spaced now)
  expiration : ¬ available.Exhausted → ∀ time ∈ available.expiration,
    now < time ∧ ∀ t, now ≤ t → (spaced t ↔ time ≤ t)

/-- How the number of tokens goes on from what is reported now. -/
structure NumberOf (available : Availability) (reports : ℤ → Option Availability) (now : ℤ)
    (number : ℤ → ℤ) : Prop where
  numbered : number now = available.tokens
  reported : ∀ t, now ≤ t → ∃ later, reports t = some later ∧ later.tokens = number t
  grows : MonotoneOn number (Set.Ici now)
  rises : Rises number now available.nextGenTime

/-- The same as `Foretells`, with the number of tokens at each time. -/
structure Course (available : Availability) (reports : ℤ → Option Availability)
    (spaced : ℤ → Prop) (now : ℤ) (number : ℤ → ℤ) : Prop
    extends available.NumberOf reports now number where
  lasts : spaced now → ∀ t, now ≤ t → spaced t
  possible : ¬ available.Exhausted → (available.expiration = none ↔ spaced now)
  expiration : ¬ available.Exhausted → ∀ time ∈ available.expiration,
    now < time ∧ ∀ t, now ≤ t → (spaced t ↔ time ≤ t)

variable {available : Availability} {reports : ℤ → Option Availability} {spaced : ℤ → Prop}
  {now : ℤ} {number : ℤ → ℤ}

theorem Course.foretells (h : available.Course reports spaced now number) :
    available.Foretells reports spaced now where
  reported t ht := by
    obtain ⟨later, hlater, -⟩ := h.reported t ht
    exact ⟨later, hlater⟩
  next := by
    refine FirstAfter.congr h.rises fun t ht => ?_
    obtain ⟨later, hlater, hnumber⟩ := h.reported t ht.le
    rw [h.numbered, ← hnumber]
    constructor
    · exact fun hmore => ⟨later, hlater, hmore⟩
    · rintro ⟨later', hlater', hmore⟩
      rw [hlater, Option.some.injEq] at hlater'
      rw [hlater']
      exact hmore
  possible := h.possible
  expiration := h.expiration

theorem Foretells.congr {reports' : ℤ → Option Availability}
    (h : available.Foretells reports spaced now) (heq : ∀ t, now ≤ t → reports t = reports' t) :
    available.Foretells reports' spaced now where
  reported t ht := heq t ht ▸ h.reported t ht
  next := FirstAfter.congr h.next fun t ht => by rw [heq t ht.le]
  possible := h.possible
  expiration := h.expiration

theorem Foretells.until {reports' : ℤ → Option Availability} {horizon : ℤ}
    (h : available.Foretells reports spaced now)
    (heq : ∀ t, now ≤ t → t ≤ horizon → reports' t = reports t) :
    available.ForetellsUntil reports' spaced now horizon where
  reported t ht hle := heq t ht hle ▸ h.reported t ht
  next := h.next.until fun t ht hle => by rw [heq t ht.le hle]
  possible := h.possible
  expiration := h.expiration

end Availability

/-! ## One level -/

namespace TokenRules

variable {rules : TokenRules} {start timestamp : ℤ} {history : List ℤ}

variable (rules) in
/-- Played in order and not before the start, the tokens are simulated. -/
theorem simulate_eq_some (hsorted : history.Pairwise (· ≤ ·))
    (hstart : ∀ time ∈ history, start ≤ time) :
    ∃ avail, rules.simulate .exact start history = some (avail, history.getLast?.getD start) := by
  induction history using List.reverseRecOn with
  | nil => exact ⟨rules.genInitial, rfl⟩
  | append_singleton history time ih =>
      rw [List.pairwise_append] at hsorted
      obtain ⟨avail, havail⟩ := ih hsorted.1 fun time' h => hstart time' (List.mem_append_left _ h)
      have hle : history.getLast?.getD start ≤ time := by
        cases hlast : history.getLast? with
        | none => exact hstart time (by simp)
        | some last =>
            exact hsorted.2.2 last (List.mem_of_getLast? hlast) time List.mem_cons_self
      refine ⟨rules.capped
        (avail + rules.generateTokens .exact start (history.getLast?.getD start) time) - 1, ?_⟩
      rw [simulate_append, havail, Option.bind_some, playNext, if_pos hle, List.getLast?_concat]
      rfl

theorem capped_eq (avail : ℤ) : rules.capped avail = rules.genMax.elim avail (min avail) := by
  unfold capped
  cases rules.genMax <;> rfl

theorem limited_fst (played avail : ℤ) (next : Option ℤ) :
    (rules.limited played avail next).1 =
      rules.maxNumber.elim avail fun limit => min avail (limit - played) := by
  unfold limited
  cases rules.maxNumber with
  | none => rfl
  | some limit =>
      dsimp only [Option.elim_some]
      split
      case isTrue hle => exact (min_eq_right hle).symm
      case isFalse hlt => exact (min_eq_left (not_le.1 hlt).le).symm

/-- The tokens there would be without the cap and the maximum. -/
def uncapped (rules : TokenRules) (start avail last t : ℤ) : ℤ :=
  avail + rules.generateTokens .exact start last t

/-- The tokens left at a time, when `avail` were left after the last one was played. -/
def left (rules : TokenRules) (start played avail last t : ℤ) : ℤ :=
  rules.maxNumber.elim (rules.capped (rules.uncapped start avail last t)) fun limit =>
    min (rules.capped (rules.uncapped start avail last t)) (limit - played)

variable (rules start) (played avail last : ℤ)

theorem uncapped_mono : Monotone (rules.uncapped start avail last) := by
  intro t u h
  have hperiods : rules.periods .exact start t ≤ rules.periods .exact start u := periods_mono h
  have hgenerated := Int.mul_le_mul_of_nonneg_left hperiods rules.genNumber_nonneg
  unfold uncapped
  rw [generateTokens_eq, generateTokens_eq]
  omega

theorem capped_mono : Monotone rules.capped := by
  intro a b h
  rw [capped_eq, capped_eq]
  cases rules.genMax with
  | none => exact h
  | some limit => exact min_le_min_right _ h

theorem left_mono : Monotone (rules.left start played avail last) := by
  intro t u h
  have hcapped := rules.capped_mono (rules.uncapped_mono start avail last h)
  unfold left
  cases rules.maxNumber with
  | none => exact hcapped
  | some limit => exact min_le_min_right _ hcapped

/-- Where tokens are generated, their number rises at the end of the period. -/
theorem rises_uncapped (now : ℤ) :
    Rises (rules.uncapped start avail last) now
      (if 0 < rules.genNumber then
        some (start + rules.genInterval * (rules.periods .exact start now + 1)) else none) := by
  split
  case isFalse hnone =>
    have hzero : rules.genNumber = 0 := by
      have hnonneg := rules.genNumber_nonneg
      omega
    intro t _ hrisen
    unfold uncapped at hrisen
    rw [generateTokens_eq, generateTokens_eq, hzero] at hrisen
    omega
  case isTrue hpos =>
    have hfirst : rules.periods .exact start
        (start + rules.genInterval * (rules.periods .exact start now + 1)) =
          rules.periods .exact start now + 1 := by
      have hcancel : start + rules.genInterval * (rules.periods .exact start now + 1) - start =
          rules.genInterval * (rules.periods .exact start now + 1) := by omega
      rw [periods, hcancel, TokenArithmetic.exact_quotient,
        Int.mul_ediv_cancel_left _ rules.genInterval_pos.ne']
    refine ⟨?_, ?_, fun t hafter hbefore hrisen => ?_⟩
    · have hlt := Int.lt_mul_ediv_self_add (x := now - start) rules.genInterval_pos
      unfold periods
      rw [Int.mul_add, Int.mul_one, TokenArithmetic.exact_quotient]
      omega
    · unfold uncapped
      simp only [generateTokens_eq, hfirst]
      rw [Int.mul_add, Int.mul_one]
      omega
    · -- The period has not ended yet.
      have hsame : rules.periods .exact start t = rules.periods .exact start now := by
        have hle : rules.periods .exact start now ≤ rules.periods .exact start t := periods_mono hafter.le
        have hlt : rules.periods .exact start t < rules.periods .exact start now + 1 := by
          unfold periods at hbefore ⊢
          simp only [TokenArithmetic.exact_quotient] at hbefore ⊢
          refine Int.ediv_lt_of_lt_mul rules.genInterval_pos ?_
          rw [Int.mul_comm]
          omega
        omega
      unfold uncapped at hrisen
      rw [generateTokens, generateTokens, hsame] at hrisen
      exact lt_irrefl _ hrisen

/-- The cap takes away what would exceed it. -/
theorem rises_capped (now : ℤ) :
    Rises (fun t => rules.capped (rules.uncapped start avail last t)) now
      (rules.nextGeneration .exact start now (rules.capped (rules.uncapped start avail last now))) := by
  have hrises := rules.rises_uncapped start avail last now
  have hmono := (rules.uncapped_mono start avail last).monotoneOn (Set.Ici now)
  unfold nextGeneration
  simp only [capped_eq, TokenArithmetic.exact_round]
  cases rules.genMax with
  | none => simpa using hrises
  | some limit =>
      have hbound := hrises.min_bound hmono limit
      have hlimit : ∀ n, min n limit < limit ↔ n < limit := by simp
      simp only [Option.elim_some, Option.mem_some_iff, forall_eq', hlimit]
      rw [← ite_and] at hbound
      simpa only [and_comm] using hbound

theorem rises_left (now : ℤ) :
    Rises (rules.left start played avail last) now
      (rules.limited played (rules.capped (rules.uncapped start avail last now))
        (rules.nextGeneration .exact start now
          (rules.capped (rules.uncapped start avail last now)))).2 := by
  have hrises := rules.rises_capped start avail last now
  have hmono := (rules.capped_mono.comp (rules.uncapped_mono start avail last)).monotoneOn
    (Set.Ici now)
  unfold limited left
  cases rules.maxNumber with
  | none => exact hrises
  | some limit =>
      have hbound := hrises.min_bound hmono (limit - played)
      dsimp only [Option.elim_some]
      split
      case isTrue hle =>
        rw [if_neg (not_lt.2 hle)] at hbound
        exact hbound
      case isFalse hgt =>
        rw [if_pos (not_le.1 hgt)] at hbound
        exact hbound

variable {rules start} {timestamp : ℤ}

theorem report_tokens (t avail last : ℤ) :
    (rules.report .exact start history t (rules.capped (rules.uncapped start avail last t))).tokens =
      rules.left start history.length avail last t :=
  rules.limited_fst _ _ _

/-- The last of the tokens played decides when the next one may be. -/
theorem spaced_iff (hmode : rules.mode = .finite) (hsorted : history.Pairwise (· ≤ ·)) {last : ℤ}
    (hlast : history.getLast? = some last) (t : ℤ) :
    rules.Spaced history t ↔ last + rules.minInterval ≤ t := by
  constructor
  · intro hspaced
    exact hspaced hmode last (List.mem_of_getLast? hlast)
  · intro hle _ time htime
    have htimele : time ≤ last := by
      obtain ⟨before, rfl⟩ := List.getLast?_eq_some_iff.1 hlast
      rcases List.mem_append.1 htime with hbefore | hself
      · exact (List.pairwise_append.1 hsorted).2.2 time hbefore last List.mem_cons_self
      · exact (List.mem_singleton.1 hself).le
    omega

/-- The expiration is reported unless it has come or nothing is left to wait for. -/
theorem report_expiration (t avail : ℤ) (h : ¬ (rules.report .exact start history t avail).Exhausted) :
    (rules.report .exact start history t avail).expiration =
      if rules.expires start history ≤ t then none else some (rules.expires start history) := by
  unfold Availability.Exhausted at h
  unfold report at h ⊢
  dsimp only at h ⊢
  exact if_congr (or_iff_left h) rfl rfl

theorem spaced_iff_expires (hmode : rules.mode = .finite) (hsorted : history.Pairwise (· ≤ ·))
    {t : ℤ} (hstart : start ≤ t) : rules.Spaced history t ↔ rules.expires start history ≤ t := by
  unfold expires
  cases hlast : history.getLast? with
  | none =>
      rw [List.getLast?_eq_none_iff] at hlast
      subst hlast
      exact iff_of_true (fun _ time htime => by cases htime) hstart
  | some last => exact spaced_iff hmode hsorted hlast t

theorem course_finite (hmode : rules.mode = .finite) (hsorted : history.Pairwise (· ≤ ·))
    (htimes : ∀ time ∈ history, start ≤ time ∧ time ≤ timestamp) (hstart : start ≤ timestamp) :
    ∃ available number, rules.tokensAvailable .exact start history timestamp = some available ∧
      available.Course (rules.tokensAvailable .exact start history) (rules.Spaced history) timestamp
        number := by
  obtain ⟨avail, hsimulate⟩ :=
    simulate_eq_some rules hsorted fun time htime => (htimes time htime).1
  have hpast : history.getLast?.getD start ≤ timestamp := by
    cases hlast : history.getLast? with
    | none => exact hstart
    | some last => exact (htimes last (List.mem_of_getLast? hlast)).2
  have hreport : ∀ t, timestamp ≤ t → rules.tokensAvailable .exact start history t = _ := fun t ht =>
    tokensAvailable_finite hmode hsimulate (hpast.trans ht)
  refine ⟨_, rules.left start history.length avail (history.getLast?.getD start),
    hreport timestamp (le_refl _), ?_⟩
  constructor
  case toNumberOf =>
    constructor
    case numbered => exact (report_tokens timestamp avail _).symm
    case reported => exact fun t ht => ⟨_, hreport t ht, report_tokens t avail _⟩
    case grows => exact (rules.left_mono start history.length avail _).monotoneOn _
    case rises => exact rules.rises_left start history.length avail _ timestamp
  case lasts => exact fun hspaced t ht => hspaced.later ht
  case possible =>
    intro hleft
    rw [report_expiration _ _ hleft, spaced_iff_expires hmode hsorted hstart]
    split
    case isTrue hle => exact iff_of_true rfl hle
    case isFalse hlt => exact iff_of_false (by simp) hlt
  case expiration =>
    intro hleft time htime
    rw [report_expiration _ _ hleft] at htime
    split at htime
    case isTrue => cases htime
    case isFalse hlt =>
      rw [← Option.some.inj htime]
      refine ⟨not_le.1 hlt, fun t ht => ?_⟩
      exact spaced_iff_expires hmode hsorted (hstart.trans ht)

variable (rules) in
/-- What a level foretells, in each of its modes. -/
theorem course (hsorted : history.Pairwise (· ≤ ·))
    (htimes : ∀ time ∈ history, start ≤ time ∧ time ≤ timestamp) (hstart : start ≤ timestamp) :
    ∃ available number, rules.tokensAvailable .exact start history timestamp = some available ∧
      available.Course (rules.tokensAvailable .exact start history) (rules.Spaced history) timestamp
        number := by
  cases hmode : rules.mode with
  | disabled =>
      have hreport : ∀ t, rules.tokensAvailable .exact start history t = some ⟨0, none, none⟩ := by
        intro t
        rw [tokensAvailable, hmode]
      refine ⟨_, fun _ => 0, hreport timestamp,
        ⟨rfl, fun t _ => ⟨_, hreport t, rfl⟩, ?_, rises_const 0⟩, ?_, ?_, ?_⟩
      · exact fun _ _ _ _ _ => le_refl _
      · exact fun hspaced t ht => hspaced.later ht
      · exact fun hleft => absurd ⟨rfl, rfl⟩ hleft
      · exact fun hleft => absurd ⟨rfl, rfl⟩ hleft
  | infinite =>
      have hreport : ∀ t, rules.tokensAvailable .exact start history t = some ⟨-1, none, none⟩ := by
        intro t
        rw [tokensAvailable, hmode]
      refine ⟨_, fun _ => -1, hreport timestamp,
        ⟨rfl, fun t _ => ⟨_, hreport t, rfl⟩, ?_, rises_const (-1)⟩, ?_, ?_, ?_⟩
      · exact fun _ _ _ _ _ => le_refl _
      · exact fun hspaced t ht => hspaced.later ht
      · refine fun _ => iff_of_true rfl fun hfinite => ?_
        rw [hmode] at hfinite
        cases hfinite
      · exact fun _ time htime => by cases htime
  | finite => exact course_finite hmode hsorted htimes hstart

/-- A level that reports what it may counts its tokens, now and later. -/
theorem counted_of_reported {available : Availability} {number : ℤ → ℤ}
    (h : available.Course (rules.tokensAvailable .exact start history) (rules.Spaced history) timestamp
      number) (hreported : Reported rules available) : Counted available timestamp number := by
  refine hreported.imp_right fun hinfinite => ⟨hinfinite.1, fun t ht => ?_⟩
  obtain ⟨later, hlater, hnumber⟩ := h.reported t ht
  rw [tokensAvailable, hinfinite.2, Option.some.injEq] at hlater
  rw [← hnumber, ← hlater]

end TokenRules

/-! ## Both levels -/

section

variable {contest ofTask : Availability} {rules taskRules : TokenRules}

theorem merge_tokens_of_nonneg (hcontest : 0 ≤ contest.tokens) (htask : 0 ≤ ofTask.tokens) :
    (merge contest ofTask).tokens = min contest.tokens ofTask.tokens := by
  grind [merge]

theorem merge_nextGenTime_of_lt (hcontest : 0 ≤ contest.tokens)
    (hlt : contest.tokens < ofTask.tokens) :
    (merge contest ofTask).nextGenTime = contest.nextGenTime := by
  grind [merge]

theorem merge_nextGenTime_of_gt (htask : 0 ≤ ofTask.tokens)
    (hlt : ofTask.tokens < contest.tokens) :
    (merge contest ofTask).nextGenTime = ofTask.nextGenTime := by
  grind [merge]

theorem merge_nextGenTime_of_eq (hcontest : 0 ≤ contest.tokens)
    (heq : contest.tokens = ofTask.tokens) :
    (merge contest ofTask).nextGenTime = whenBoth contest.nextGenTime ofTask.nextGenTime := by
  grind [merge, whenBoth]

theorem merge_of_infinite (hcontest : contest.tokens = -1) (htask : 0 ≤ ofTask.tokens) :
    merge contest ofTask = ⟨ofTask.tokens, ofTask.nextGenTime,
      laterExpiration contest.expiration ofTask.expiration⟩ := by
  grind [merge]

theorem merge_of_task_infinite (hcontest : 0 ≤ contest.tokens) (htask : ofTask.tokens = -1) :
    merge contest ofTask = ⟨contest.tokens, contest.nextGenTime,
      laterExpiration contest.expiration ofTask.expiration⟩ := by
  grind [merge]

theorem merge_of_both_infinite (hcontest : contest.tokens = -1) (htask : ofTask.tokens = -1) :
    merge contest ofTask = ⟨-1, none, laterExpiration contest.expiration ofTask.expiration⟩ := by
  simp [merge, hcontest, htask]

theorem merge_expiration (contest ofTask : Availability) :
    (merge contest ofTask).expiration =
      laterExpiration contest.expiration ofTask.expiration := by
  grind [merge]

variable {now : ℤ} {number taskNumber : ℤ → ℤ} {reports taskReports : ℤ → Option Availability}
  {spaced taskSpaced : ℤ → Prop}

theorem not_exhausted_of_merge (hcontest : 0 ≤ contest.tokens ∨ contest.tokens = -1)
    (htask : 0 ≤ ofTask.tokens ∨ ofTask.tokens = -1) (h : ¬ (merge contest ofTask).Exhausted) :
    ¬ contest.Exhausted ∧ ¬ ofTask.Exhausted := by
  unfold Availability.Exhausted at *
  grind [merge]

theorem laterExpiration_eq_none {expiration expiration' : Option ℤ} :
    laterExpiration expiration expiration' = none ↔ expiration = none ∧ expiration' = none := by
  cases expiration <;> cases expiration' <;> simp [laterExpiration]

/-- The results at both levels, merged. -/
def merged (reports taskReports : ℤ → Option Availability) (t : ℤ) : Option Availability := do
  let contest ← reports t
  let ofTask ← taskReports t
  some (merge contest ofTask)

theorem merged_reported (hcontest : contest.Course reports spaced now number)
    (htask : ofTask.Course taskReports taskSpaced now taskNumber) {t : ℤ} (ht : now ≤ t) :
    ∃ later later', merged reports taskReports t = some (merge later later') ∧
      later.tokens = number t ∧ later'.tokens = taskNumber t := by
  obtain ⟨later, hlater, hnumber⟩ := hcontest.reported t ht
  obtain ⟨later', hlater', hnumber'⟩ := htask.reported t ht
  exact ⟨later, later', by rw [merged, hlater, hlater']; rfl, hnumber, hnumber'⟩

/-- With a finite number at both levels, the smaller one counts. -/
theorem merged_number_finite (hcontest : contest.Course reports spaced now number)
    (htask : ofTask.Course taskReports taskSpaced now taskNumber) (hnonneg : 0 ≤ contest.tokens)
    (hnonneg' : 0 ≤ ofTask.tokens) :
    (merge contest ofTask).NumberOf (merged reports taskReports) now
      fun t => min (number t) (taskNumber t) := by
  have hrises := hcontest.rises
  have hrises' := htask.rises
  refine ⟨?_, fun t ht => ?_, hcontest.grows.min htask.grows, ?_⟩
  · rw [merge_tokens_of_nonneg hnonneg hnonneg', hcontest.numbered, htask.numbered]
  · obtain ⟨later, later', heq, hnumber, hnumber'⟩ := merged_reported hcontest htask ht
    have hle := hcontest.grows (le_refl now) ht ht
    have hle' := htask.grows (le_refl now) ht ht
    rw [hcontest.numbered, ← hnumber] at hle
    rw [htask.numbered, ← hnumber'] at hle'
    refine ⟨_, heq, ?_⟩
    rw [merge_tokens_of_nonneg (hnonneg.trans hle) (hnonneg'.trans hle'), hnumber, hnumber']
  · rcases lt_trichotomy contest.tokens ofTask.tokens with hlt | heq | hgt
    · rw [merge_nextGenTime_of_lt hnonneg hlt]
      refine hrises.min_of_lt htask.grows ?_
      rw [hcontest.numbered, htask.numbered]
      exact hlt
    · rw [merge_nextGenTime_of_eq hnonneg heq]
      refine hrises.min_of_eq hrises' hcontest.grows htask.grows ?_
      rw [hcontest.numbered, htask.numbered]
      exact heq
    · rw [merge_nextGenTime_of_gt hnonneg' hgt]
      simp only [min_comm (number _)]
      refine hrises'.min_of_lt hcontest.grows ?_
      rw [hcontest.numbered, htask.numbered]
      exact hgt

/-- The number at both levels, whichever of them are infinite. -/
theorem merged_number (hcontest : contest.Course reports spaced now number)
    (htask : ofTask.Course taskReports taskSpaced now taskNumber)
    (hcounted : Counted contest now number) (hcounted' : Counted ofTask now taskNumber) :
    ∃ both, (merge contest ofTask).NumberOf (merged reports taskReports) now both := by
  rcases hcounted with hnonneg | ⟨hinfinite, hconst⟩
  · rcases hcounted' with hnonneg' | ⟨hinfinite', hconst'⟩
    · exact ⟨_, merged_number_finite hcontest htask hnonneg hnonneg'⟩
    · have hmerge := merge_of_task_infinite hnonneg hinfinite'
      refine ⟨number, ?_, fun t ht => ?_, hcontest.grows, ?_⟩
      · rw [hmerge, hcontest.numbered]
      · obtain ⟨later, later', heq, hnumber, hnumber'⟩ := merged_reported hcontest htask ht
        have hle := hcontest.grows (le_refl now) ht ht
        rw [hcontest.numbered, ← hnumber] at hle
        refine ⟨_, heq, ?_⟩
        rw [merge_of_task_infinite (hnonneg.trans hle) (hnumber'.trans (hconst' t ht)), hnumber]
      · rw [hmerge]
        exact hcontest.rises
  · rcases hcounted' with hnonneg' | ⟨hinfinite', hconst'⟩
    · have hmerge := merge_of_infinite hinfinite hnonneg'
      refine ⟨taskNumber, ?_, fun t ht => ?_, htask.grows, ?_⟩
      · rw [hmerge, htask.numbered]
      · obtain ⟨later, later', heq, hnumber, hnumber'⟩ := merged_reported hcontest htask ht
        have hle := htask.grows (le_refl now) ht ht
        rw [htask.numbered, ← hnumber'] at hle
        refine ⟨_, heq, ?_⟩
        rw [merge_of_infinite (hnumber.trans (hconst t ht)) (hnonneg'.trans hle), hnumber']
      · rw [hmerge]
        exact htask.rises
    · have hmerge := merge_of_both_infinite hinfinite hinfinite'
      refine ⟨fun _ => -1, ?_, fun t ht => ?_, fun _ _ _ _ _ => le_refl _, ?_⟩
      · rw [hmerge]
      · obtain ⟨later, later', heq, hnumber, hnumber'⟩ := merged_reported hcontest htask ht
        refine ⟨_, heq, ?_⟩
        rw [merge_of_both_infinite (hnumber.trans (hconst t ht)) (hnumber'.trans (hconst' t ht))]
      · rw [hmerge]
        exact rises_const (-1)

/-- What the results at both levels foretell, merged. -/
theorem merged_course (hcontest : contest.Course reports spaced now number)
    (htask : ofTask.Course taskReports taskSpaced now taskNumber)
    (hcounted : Counted contest now number) (hcounted' : Counted ofTask now taskNumber) :
    ∃ both, (merge contest ofTask).Course (merged reports taskReports)
      (fun t => spaced t ∧ taskSpaced t) now both := by
  obtain ⟨both, hboth⟩ := merged_number hcontest htask hcounted hcounted'
  have hleft := not_exhausted_of_merge (hcounted.imp_right And.left) (hcounted'.imp_right And.left)
  refine ⟨both, hboth, ?_, fun h => ?_, fun h time htime => ?_⟩
  · exact fun hspaced t ht => ⟨hcontest.lasts hspaced.1 t ht, htask.lasts hspaced.2 t ht⟩
  · rw [merge_expiration, laterExpiration_eq_none, hcontest.possible (hleft h).1,
      htask.possible (hleft h).2]
  · have hpossible := hcontest.possible (hleft h).1
    have hpossible' := htask.possible (hleft h).2
    have hwaits := hcontest.expiration (hleft h).1
    have hwaits' := htask.expiration (hleft h).2
    rw [merge_expiration, Option.mem_def] at htime
    cases hfirst : contest.expiration with
    | none =>
        -- Only the level of the task has to wait.
        have hspaced := hcontest.lasts (hpossible.1 hfirst)
        rw [hfirst] at htime
        obtain ⟨hnow, hiff⟩ := hwaits' time htime
        exact ⟨hnow, fun t ht => (and_iff_right (hspaced t ht)).trans (hiff t ht)⟩
    | some first =>
        obtain ⟨hnow, hiff⟩ := hwaits first hfirst
        cases hother : ofTask.expiration with
        | none =>
            have hspaced := htask.lasts (hpossible'.1 hother)
            rw [hfirst, hother] at htime
            obtain rfl : first = time := Option.some.inj htime
            exact ⟨hnow, fun t ht => (and_iff_left (hspaced t ht)).trans (hiff t ht)⟩
        | some other =>
            obtain ⟨-, hiff'⟩ := hwaits' other hother
            rw [hfirst, hother] at htime
            obtain rfl : max other first = time := Option.some.inj htime
            refine ⟨hnow.trans_le (le_max_right other first), fun t ht => ?_⟩
            rw [hiff t ht, hiff' t ht, max_le_iff, and_comm]

end

namespace TokenSetup

variable (setup : TokenSetup) {tokens : List Token} {timestamp : ℤ}

theorem played_eq_of_le (htimes : ∀ token ∈ tokens, token.timestamp ≤ timestamp) {t : ℤ}
    (ht : timestamp ≤ t) : played tokens t = played tokens timestamp := by
  have hall : ∀ {time : ℤ}, timestamp ≤ time →
      (tokens.filter fun token => token.timestamp ≤ time) = tokens := by
    intro time hle
    rw [List.filter_eq_self]
    exact fun token htoken => decide_eq_true ((htimes token htoken).trans hle)
  rw [played, played, hall ht, hall (le_refl timestamp)]

theorem contestHistory_sorted : (contestHistory tokens timestamp).Pairwise (· ≤ ·) := by
  unfold contestHistory played
  rw [List.pairwise_map]
  exact List.pairwise_insertionSort (fun a b : Token => a.timestamp ≤ b.timestamp) _

/-- What the result for a contest and one of its tasks foretells. -/
theorem foretells (task : ℕ) (hstart : setup.start ≤ timestamp)
    (htimes : ∀ token ∈ tokens, setup.start ≤ token.timestamp ∧ token.timestamp ≤ timestamp)
    (hcontest : ∀ available, setup.contestTokens .exact tokens timestamp = some available →
      Reported setup.contest available)
    (htask : ∀ available, setup.taskTokens .exact tokens task timestamp = some available →
      Reported (setup.task task) available) :
    ∃ available, setup.tokensAvailable .exact tokens task timestamp = some available ∧
      available.Foretells (setup.tokensAvailable .exact tokens task)
        (fun t => setup.contest.Spaced (contestHistory tokens timestamp) t ∧
          (setup.task task).Spaced (setup.taskHistory tokens task timestamp) t) timestamp := by
  have hplayed : ∀ token ∈ played tokens timestamp,
      setup.start ≤ token.timestamp ∧ token.timestamp ≤ timestamp :=
    fun token htoken => htimes token (mem_played htoken)
  have hcontestTimes : ∀ time ∈ contestHistory tokens timestamp,
      setup.start ≤ time ∧ time ≤ timestamp := by
    intro time htime
    obtain ⟨token, htoken, rfl⟩ := List.mem_map.1 htime
    exact hplayed token htoken
  have htaskTimes : ∀ time ∈ setup.taskHistory tokens task timestamp,
      setup.start ≤ time ∧ time ≤ timestamp := by
    intro time htime
    obtain ⟨token, htoken, rfl⟩ := List.mem_map.1 htime
    exact hplayed token (List.mem_of_mem_filter htoken)
  have htaskSorted : (setup.taskHistory tokens task timestamp).Pairwise (· ≤ ·) :=
    contestHistory_sorted.sublist (List.filter_sublist.map _)
  obtain ⟨contest, number, hreport, hcourse⟩ :=
    setup.contest.course contestHistory_sorted hcontestTimes hstart
  obtain ⟨ofTask, taskNumber, hreport', hcourse'⟩ :=
    (setup.task task).course htaskSorted htaskTimes hstart
  obtain ⟨both, hboth⟩ := merged_course hcourse hcourse'
    (TokenRules.counted_of_reported hcourse (hcontest contest hreport))
    (TokenRules.counted_of_reported hcourse' (htask ofTask hreport'))
  refine ⟨merge contest ofTask, ?_, hboth.foretells.congr fun t ht => ?_⟩
  · rw [tokensAvailable, contestTokens, taskTokens, hreport, hreport']
    rfl
  · have hsame := played_eq_of_le (fun token htoken => (htimes token htoken).2) ht
    unfold merged tokensAvailable contestTokens taskTokens contestHistory taskHistory
    rw [hsame]

theorem foretells_of_reachable {s : TokenState} (h : (setup.machine .exact).Reachable s) (task : ℕ)
    (hle : s.clock ≤ timestamp) :
    ∃ available, setup.tokensAvailable .exact s.tokens task timestamp = some available ∧
      available.Foretells (setup.tokensAvailable .exact s.tokens task)
        (fun t => setup.contest.Spaced (contestHistory s.tokens timestamp) t ∧
          (setup.task task).Spaced (setup.taskHistory s.tokens task timestamp) t) timestamp := by
  have hkept := kept_of_reachable h
  obtain ⟨hclock, htokens⟩ := start_le_of_reachable h
  obtain ⟨contest, ofTask, hreport, hreported, hreport', hreported', -⟩ :=
    hkept.respected.reported task timestamp hle
  refine setup.foretells task (hclock.trans hle) (fun token htoken => ?_)
    (fun available havailable => ?_) (fun available havailable => ?_)
  · exact ⟨htokens token htoken, (hkept.past token htoken).trans hle⟩
  · rw [hreport, Option.some.injEq] at havailable
    exact havailable ▸ hreported
  · rw [hreport', Option.some.injEq] at havailable
    exact havailable ▸ hreported'

section

variable {setup} {horizon : ℤ} {task : ℕ}

/-- What both levels foretell, in floating-point numbers. -/
theorem foretellsUntil (h : setup.ExactUntil horizon) (hstart : setup.start ≤ timestamp)
    (hle : timestamp ≤ horizon)
    (htimes : ∀ token ∈ tokens, setup.start ≤ token.timestamp ∧ token.timestamp ≤ timestamp)
    (hlength : tokens.length ≤ 2 ^ 53)
    (hcontest : ∀ available, setup.contestTokens .python tokens timestamp = some available →
      Reported setup.contest available)
    (htask : ∀ available, setup.taskTokens .python tokens task timestamp = some available →
      Reported (setup.task task) available) :
    ∃ available, setup.tokensAvailable .python tokens task timestamp = some available ∧
      available.ForetellsUntil (setup.tokensAvailable .python tokens task)
        (fun t => setup.contest.Spaced (contestHistory tokens timestamp) t ∧
          (setup.task task).Spaced (setup.taskHistory tokens task timestamp) t)
        timestamp horizon := by
  have hcontestLength : ∀ t, (contestHistory tokens t).length ≤ 2 ^ 53 :=
    fun t => length_contestHistory_le.trans hlength
  have htaskLength : ∀ t, (setup.taskHistory tokens task t).length ≤ 2 ^ 53 :=
    fun t => length_taskHistory_le.trans hlength
  have hsame : ∀ t, timestamp ≤ t → t ≤ horizon → setup.tokensAvailable .python tokens task t =
      setup.tokensAvailable .exact tokens task t := fun t ht hlate =>
    tokensAvailable_eq_exact h (hstart.trans ht) hlate
      (fun token htoken => ⟨(htimes token htoken).1, (htimes token htoken).2.trans ht⟩)
      (fun _ => hcontestLength t) fun _ => htaskLength t
  rw [contestTokens_eq_exact h hstart hle htimes fun _ => hcontestLength timestamp] at hcontest
  rw [taskTokens_eq_exact h hstart hle htimes fun _ => htaskLength timestamp] at htask
  obtain ⟨available, hreport, hforetells⟩ :=
    setup.foretells task hstart htimes hcontest htask
  exact ⟨available, (hsame timestamp (le_refl _) hle).trans hreport, hforetells.until hsame⟩

theorem foretellsUntil_of_reachable {s : TokenState} (hreach : (setup.machine .python).Reachable s)
    (h : setup.ExactUntil horizon) (htime : s.clock ≤ timestamp) (hle : timestamp ≤ horizon) :
    ∃ available, setup.tokensAvailable .python s.tokens task timestamp = some available ∧
      available.ForetellsUntil (setup.tokensAvailable .python s.tokens task)
        (fun t => setup.contest.Spaced (contestHistory s.tokens timestamp) t ∧
          (setup.task task).Spaced (setup.taskHistory s.tokens task timestamp) t)
        timestamp horizon := by
  have hexact := reachable_exact h hreach (htime.trans hle)
  have hkept := kept_of_reachable hexact
  have hsame : ∀ t, timestamp ≤ t → t ≤ horizon → setup.tokensAvailable .python s.tokens task t =
      setup.tokensAvailable .exact s.tokens task t := fun t ht hlate =>
    hkept.tokensAvailable_eq_exact hexact h (htime.trans ht) hlate task
  obtain ⟨available, hreport, hforetells⟩ := setup.foretells_of_reachable hexact task htime
  exact ⟨available, (hsame timestamp (le_refl _) hle).trans hreport, hforetells.until hsame⟩

end

/-- Minutes are counted exactly. -/
theorem threeTokens_exactUntil : threeTokens.ExactUntil 0 600000000 :=
  TokenRules.exactUntil_of_seconds (by decide : threeTokens.genInterval = 1000000 * 60) (by decide)
    (by decide) (by decide) (by decide) (by decide) (by decide) (by decide) (by decide)

/-- A token each tenth of a second. -/
def tenthTokens : TokenRules :=
  { threeTokens with
    genInterval := 100000
    genMax := some 1000
    maxNumber := some 1000
    genInterval_pos := by decide
    genMax_pos := by decide
    genInitial_le := by decide
    maxNumber_pos := by decide }

end TokenSetup

end Server
end ContestManagement
