import Mathlib.Data.Prod.Lex
import Mathlib.Order.MinMax

/-!
# Phases along a time line

A time line is cut just before or just after some times, and each cut starts the next phase.  The
phase at a time is the one that the last cut behind it has started, and its period lies between
that cut and the next one.

If the cuts are in order and the phases increase, the periods partition the time: the phase never
goes back, a time lies in its own period, the times inside a period have the same period, and the
times outside of it have another phase.
-/

namespace ContestManagement
namespace Lib

/-- A place between times: just before a time, or just after it. -/
abbrev Cut (T : Type*) : Type _ := T ×ₗ Bool

namespace Cut

variable {T : Type*}

def before (time : T) : Cut T := toLex (time, false)

def after (time : T) : Cut T := toLex (time, true)

/-- The time next to a cut. -/
def time (cut : Cut T) : T := (ofLex cut).1

@[simp] theorem time_before (t : T) : (before t).time = t := rfl

@[simp] theorem time_after (t : T) : (after t).time = t := rfl

variable [LinearOrder T]

/-- A cut is passed by the times behind it. -/
def Passed (cut : Cut T) (t : T) : Prop := cut ≤ before t

instance (cut : Cut T) (t : T) : Decidable (cut.Passed t) :=
  inferInstanceAs (Decidable (cut ≤ before t))

@[simp] theorem before_le_before {a b : T} : before a ≤ before b ↔ a ≤ b := by
  rw [before, before, Prod.Lex.toLex_le_toLex]
  simp [le_iff_lt_or_eq]

@[simp] theorem before_le_after {a b : T} : before a ≤ after b ↔ a ≤ b := by
  rw [before, after, Prod.Lex.toLex_le_toLex]
  simp [le_iff_lt_or_eq]

@[simp] theorem after_le_before {a b : T} : after a ≤ before b ↔ a < b := by
  rw [before, after, Prod.Lex.toLex_le_toLex]
  simp

@[simp] theorem after_le_after {a b : T} : after a ≤ after b ↔ a ≤ b := by
  rw [after, after, Prod.Lex.toLex_le_toLex]
  simp [le_iff_lt_or_eq]

@[simp] theorem before_passed {a t : T} : (before a).Passed t ↔ a ≤ t := before_le_before

@[simp] theorem after_passed {a t : T} : (after a).Passed t ↔ a < t := after_le_before

theorem time_mono {cut cut' : Cut T} (h : cut ≤ cut') : cut.time ≤ cut'.time :=
  (Prod.Lex.le_iff.1 h).elim le_of_lt fun heq => heq.1.le

@[simp] theorem time_max (cut cut' : Cut T) : (max cut cut').time = max cut.time cut'.time :=
  Monotone.map_max fun _ _ => time_mono

@[simp] theorem max_passed {cut cut' : Cut T} {t : T} :
    (max cut cut').Passed t ↔ cut.Passed t ∧ cut'.Passed t :=
  max_le_iff

theorem Passed.time_le {cut : Cut T} {t : T} (h : cut.Passed t) : cut.time ≤ t := time_mono h

theorem Passed.of_le {cut : Cut T} {t u : T} (h : cut.Passed t) (hle : t ≤ u) : cut.Passed u :=
  le_trans h (before_le_before.2 hle)

theorem le_time_of_not_passed {cut : Cut T} {t : T} (h : ¬cut.Passed t) : t ≤ cut.time := by
  have hle : before t ≤ cut := (not_le.1 h).le
  exact time_mono hle

theorem passed_of_time_lt {cut : Cut T} {t : T} (h : cut.time < t) : cut.Passed t := by
  refine le_of_lt (Prod.Lex.lt_iff.2 (Or.inl ?_))
  exact h

end Cut

/-- A phase with the times between which it lasts; a missing one is infinite. -/
structure Period (T P : Type*) where
  phase : P
  start : Option T
  stop : Option T
  deriving DecidableEq, Repr

namespace Period

variable {T P : Type*} [LinearOrder T]

/-- The period lasts at a time, its ends included. -/
structure Contains (period : Period T P) (t : T) : Prop where
  start_le : ∀ b ∈ period.start, b ≤ t
  le_stop : ∀ e ∈ period.stop, t ≤ e

/-- The time lies strictly between the ends. -/
structure Inside (period : Period T P) (t : T) : Prop where
  start_lt : ∀ b ∈ period.start, b < t
  lt_stop : ∀ e ∈ period.stop, t < e

end Period

namespace Timeline

variable {T P : Type*} [LinearOrder T]

/-- The period of a time, from the phase before the cuts and the time at which it began. -/
def periodAt (t : T) : P → Option T → List (Cut T × P) → Period T P
  | phase, start, [] => ⟨phase, start, none⟩
  | phase, start, (cut, next) :: rest =>
      if cut.Passed t then periodAt t next (some cut.time) rest
      else ⟨phase, start, some cut.time⟩

variable {phase next : P} {cut : Cut T} {rest cuts : List (Cut T × P)} {start : Option T} {t u : T}

theorem periodAt_of_passed (h : cut.Passed t) :
    periodAt t phase start ((cut, next) :: rest) = periodAt t next (some cut.time) rest :=
  if_pos h

theorem periodAt_of_not_passed (h : ¬cut.Passed t) :
    periodAt t phase start ((cut, next) :: rest) = ⟨phase, start, some cut.time⟩ :=
  if_neg h

/-- A period begins at a cut, or where the first one began. -/
theorem start_periodAt (t : T) (phase : P) (start : Option T) (cuts : List (Cut T × P)) :
    (periodAt t phase start cuts).start = start ∨
      ∃ entry ∈ cuts, (periodAt t phase start cuts).start = some entry.1.time := by
  induction cuts generalizing phase start with
  | nil => exact Or.inl rfl
  | cons entry rest ih =>
      obtain ⟨cut, next⟩ := entry
      by_cases h : cut.Passed t
      · rw [periodAt_of_passed h]
        right
        rcases ih next (some cut.time) with hstart | ⟨entry, hentry, hstart⟩
        · exact ⟨(cut, next), List.mem_cons_self, hstart⟩
        · exact ⟨entry, List.mem_cons_of_mem _ hentry, hstart⟩
      · rw [periodAt_of_not_passed h]
        exact Or.inl rfl

/-- The phases are those of the cuts and the one before them. -/
theorem phase_mem (t : T) (phase : P) (start : Option T) (cuts : List (Cut T × P)) :
    (periodAt t phase start cuts).phase ∈ phase :: cuts.map Prod.snd := by
  induction cuts generalizing phase start with
  | nil => exact List.mem_cons_self
  | cons entry rest ih =>
      obtain ⟨cut, next⟩ := entry
      by_cases h : cut.Passed t
      · rw [periodAt_of_passed h]
        exact List.mem_cons_of_mem _ (ih next (some cut.time))
      · rw [periodAt_of_not_passed h]
        exact List.mem_cons_self

theorem some_start (phase : P) (cuts : List (Cut T × P)) (b t : T) :
    ∃ b', (periodAt t phase (some b) cuts).start = some b' := by
  rcases start_periodAt t phase (some b) cuts with hstart | ⟨entry, -, hstart⟩
  · exact ⟨b, hstart⟩
  · exact ⟨_, hstart⟩

/-- A time lies in its period. -/
theorem contains_periodAt (hstart : ∀ b ∈ start, b ≤ t) :
    (periodAt t phase start cuts).Contains t := by
  induction cuts generalizing phase start with
  | nil =>
      refine ⟨hstart, fun e he => ?_⟩
      cases he
  | cons entry rest ih =>
      obtain ⟨cut, next⟩ := entry
      by_cases h : cut.Passed t
      · rw [periodAt_of_passed h]
        refine ih fun b hb => ?_
        rw [← Option.some.inj hb]
        exact h.time_le
      · rw [periodAt_of_not_passed h]
        refine ⟨hstart, fun e he => ?_⟩
        rw [← Option.some.inj he]
        exact Cut.le_time_of_not_passed h

/-- Of the cuts from one that is not passed on, only this one counts. -/
theorem periodAt_append_of_not_passed (h : ¬cut.Passed t) (next' : P) (rest' : List (Cut T × P)) :
    periodAt t phase start (cuts ++ (cut, next) :: rest) =
      periodAt t phase start (cuts ++ (cut, next') :: rest') := by
  induction cuts generalizing phase start with
  | nil => rw [List.nil_append, periodAt_of_not_passed h, List.nil_append, periodAt_of_not_passed h]
  | cons entry earlier ih =>
      obtain ⟨first, p⟩ := entry
      rw [List.cons_append, List.cons_append]
      by_cases hfirst : first.Passed t
      · rw [periodAt_of_passed hfirst, periodAt_of_passed hfirst]
        exact ih
      · rw [periodAt_of_not_passed hfirst, periodAt_of_not_passed hfirst]

/-- Once a cut is passed, those before it do not count. -/
theorem periodAt_append_of_passed (h : cut.Passed t) (hearlier : ∀ entry ∈ cuts, entry.1 ≤ cut) :
    periodAt t phase start (cuts ++ (cut, next) :: rest) =
      periodAt t next (some cut.time) rest := by
  induction cuts generalizing phase start with
  | nil => exact periodAt_of_passed h
  | cons entry earlier ih =>
      obtain ⟨first, p⟩ := entry
      have hfirst : first.Passed t := (hearlier (first, p) List.mem_cons_self).trans h
      rw [List.cons_append, periodAt_of_passed hfirst]
      exact ih fun other hother => hearlier other (List.mem_cons_of_mem _ hother)

/-! ## The partition -/

variable [Preorder P]

/-- The cuts are in order, and the phases increase from the one before the cuts. -/
structure Ordered (phase : P) (cuts : List (Cut T × P)) : Prop where
  sorted : cuts.Pairwise fun a b => a.1 ≤ b.1
  increasing : (phase :: cuts.map Prod.snd).Pairwise (· < ·)

theorem Ordered.tail (h : Ordered phase ((cut, next) :: rest)) : Ordered next rest :=
  ⟨(List.pairwise_cons.1 h.sorted).2, (List.pairwise_cons.1 h.increasing).2⟩

theorem Ordered.lt_next (h : Ordered phase ((cut, next) :: rest)) : phase < next :=
  (List.pairwise_cons.1 h.increasing).1 next (by simp)

theorem Ordered.cut_le (h : Ordered phase ((cut, next) :: rest)) {entry : Cut T × P}
    (hentry : entry ∈ rest) : cut ≤ entry.1 :=
  (List.pairwise_cons.1 h.sorted).1 entry hentry

/-- The phase before the cuts is the least one. -/
theorem Ordered.le_phase (h : Ordered phase cuts) (start : Option T) (t : T) :
    phase ≤ (periodAt t phase start cuts).phase := by
  induction cuts generalizing phase start with
  | nil => exact le_refl phase
  | cons entry rest ih =>
      obtain ⟨cut, next⟩ := entry
      by_cases ht : cut.Passed t
      · rw [periodAt_of_passed ht]
        exact h.lt_next.le.trans (ih h.tail _)
      · rw [periodAt_of_not_passed ht]

/-- Before a cut, its phase has not come. -/
theorem Ordered.phase_lt_of_not_passed (h : Ordered phase (cuts ++ (cut, next) :: rest))
    (hcut : ¬cut.Passed t) :
    (periodAt t phase start (cuts ++ (cut, next) :: rest)).phase < next := by
  induction cuts generalizing phase start with
  | nil =>
      rw [List.nil_append] at h ⊢
      rw [periodAt_of_not_passed hcut]
      exact h.lt_next
  | cons entry earlier ih =>
      obtain ⟨first, p⟩ := entry
      rw [List.cons_append] at h ⊢
      by_cases hfirst : first.Passed t
      · rw [periodAt_of_passed hfirst]
        exact ih h.tail
      · rw [periodAt_of_not_passed hfirst]
        refine (List.pairwise_cons.1 h.increasing).1 next ?_
        simp

/-- Behind a cut, no period begins before it. -/
theorem Ordered.le_start (h : Ordered phase ((cut, next) :: rest)) {b : T}
    (hb : b ∈ (periodAt t next (some cut.time) rest).start) : cut.time ≤ b := by
  rcases start_periodAt t next (some cut.time) rest with hstart | ⟨entry, hentry, hstart⟩
  · rw [hstart, Option.mem_some_iff] at hb
    exact hb.le
  · rw [hstart, Option.mem_some_iff] at hb
    rw [← hb]
    exact Cut.time_mono (h.cut_le hentry)

/-- The phase never goes back. -/
theorem Ordered.phase_mono (h : Ordered phase cuts) (hle : t ≤ u) :
    (periodAt t phase start cuts).phase ≤ (periodAt u phase start cuts).phase := by
  induction cuts generalizing phase start with
  | nil => exact le_refl phase
  | cons entry rest ih =>
      obtain ⟨cut, next⟩ := entry
      by_cases ht : cut.Passed t
      · rw [periodAt_of_passed ht, periodAt_of_passed (ht.of_le hle)]
        exact ih h.tail
      · rw [periodAt_of_not_passed ht]
        exact h.le_phase start u

/-- The times strictly inside a period have this period. -/
theorem Ordered.periodAt_eq_of_inside (h : Ordered phase cuts)
    (hinside : (periodAt t phase start cuts).Inside u) :
    periodAt u phase start cuts = periodAt t phase start cuts := by
  induction cuts generalizing phase start with
  | nil => rfl
  | cons entry rest ih =>
      obtain ⟨cut, next⟩ := entry
      by_cases ht : cut.Passed t
      · rw [periodAt_of_passed ht] at hinside ⊢
        obtain ⟨b, hb⟩ := some_start next rest cut.time t
        have hlt : cut.time < u := (h.le_start hb).trans_lt (hinside.start_lt b hb)
        rw [periodAt_of_passed (Cut.passed_of_time_lt hlt)]
        exact ih h.tail hinside
      · rw [periodAt_of_not_passed ht] at hinside ⊢
        have hnot : ¬cut.Passed u := fun hu =>
          absurd hu.time_le (not_le.2 (hinside.lt_stop cut.time rfl))
        rw [periodAt_of_not_passed hnot]

/-- The times outside of a period have another phase. -/
theorem Ordered.phase_ne_of_not_contains (h : Ordered phase cuts)
    (hstart : ∀ b ∈ start, b ≤ u) (houtside : ¬(periodAt t phase start cuts).Contains u) :
    (periodAt u phase start cuts).phase ≠ (periodAt t phase start cuts).phase := by
  induction cuts generalizing phase start with
  | nil =>
      refine absurd ⟨hstart, fun e he => ?_⟩ houtside
      cases he
  | cons entry rest ih =>
      obtain ⟨cut, next⟩ := entry
      by_cases ht : cut.Passed t
      · rw [periodAt_of_passed ht] at houtside ⊢
        by_cases hu : cut.Passed u
        · rw [periodAt_of_passed hu]
          refine ih h.tail (fun b hb => ?_) houtside
          rw [← Option.some.inj hb]
          exact hu.time_le
        · rw [periodAt_of_not_passed hu]
          exact (h.lt_next.trans_le (h.tail.le_phase _ t)).ne
      · rw [periodAt_of_not_passed ht] at houtside ⊢
        have hu : cut.Passed u := by
          by_contra hnot
          refine houtside ⟨hstart, fun e he => ?_⟩
          rw [← Option.some.inj he]
          exact Cut.le_time_of_not_passed hnot
        rw [periodAt_of_passed hu]
        exact (h.lt_next.trans_le (h.tail.le_phase _ u)).ne'

end Timeline

end Lib
end ContestManagement
