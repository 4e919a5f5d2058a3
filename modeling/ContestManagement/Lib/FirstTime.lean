import Mathlib.Order.Interval.Set.Defs
import Mathlib.Order.MinMax
import Mathlib.Order.Monotone.Defs
import Mathlib.Tactic.Common

/-!
# First times

A quantity that never falls rises at a first time, or never.  The smaller one of two such
quantities rises when the strictly smaller one rises, and where they are equal when both have.
-/

namespace ContestManagement
namespace Lib

variable {T N : Type*} [LinearOrder T] [LinearOrder N]

/-- The first time after `now` at which a condition holds, or that there is none. -/
def FirstAfter (p : T → Prop) (now : T) : Option T → Prop
  | none => ∀ t, now < t → ¬ p t
  | some first => now < first ∧ p first ∧ ∀ t, now < t → t < first → ¬ p t

/-- The same, as far as it can be told up to a horizon. -/
def FirstUntil (p : T → Prop) (now horizon : T) : Option T → Prop
  | none => ∀ t, now < t → t ≤ horizon → ¬ p t
  | some first =>
      now < first ∧ (first ≤ horizon → p first) ∧ ∀ t, now < t → t ≤ horizon → t < first → ¬ p t

/-- The first time at which a quantity is larger than now. -/
def Rises (f : T → N) (now : T) (first : Option T) : Prop :=
  FirstAfter (fun t => f now < f t) now first

/-- The time from which both of two things have happened. -/
def whenBoth : Option T → Option T → Option T
  | some first, some other => some (max first other)
  | _, _ => none

theorem FirstAfter.congr {p q : T → Prop} {now : T} {first : Option T}
    (h : FirstAfter p now first) (heq : ∀ t, now < t → (p t ↔ q t)) : FirstAfter q now first := by
  cases first with
  | none => exact fun t ht hq => h t ht ((heq t ht).2 hq)
  | some first =>
      obtain ⟨hafter, hfirst, hbefore⟩ := h
      exact ⟨hafter, (heq first hafter).1 hfirst, fun t ht hlt hq =>
        hbefore t ht hlt ((heq t ht).2 hq)⟩

theorem FirstAfter.until {p q : T → Prop} {now horizon : T} {first : Option T}
    (h : FirstAfter p now first) (heq : ∀ t, now < t → t ≤ horizon → (p t ↔ q t)) :
    FirstUntil q now horizon first := by
  cases first with
  | none => exact fun t ht hle hq => h t ht ((heq t ht hle).2 hq)
  | some first =>
      obtain ⟨hafter, hfirst, hbefore⟩ := h
      exact ⟨hafter, fun hle => (heq first hafter hle).1 hfirst, fun t ht hle hlt hq =>
        hbefore t ht hlt ((heq t ht hle).2 hq)⟩

variable {f g : T → N} {now : T} {first other : Option T}

theorem rises_const (value : N) : Rises (fun _ => value) now none :=
  fun _ _ => lt_irrefl _

/-- What has risen stays risen. -/
theorem Rises.lt_of_le (h : Rises f now first) (hmono : MonotoneOn f (Set.Ici now)) {time t : T}
    (hfirst : first = some time) (ht : time ≤ t) : f now < f t := by
  subst hfirst
  obtain ⟨hafter, hrisen, -⟩ := h
  exact hrisen.trans_le (hmono hafter.le (hafter.le.trans ht) ht)

/-- The strictly smaller one decides. -/
theorem Rises.min_of_lt (h : Rises f now first) (hmono : MonotoneOn g (Set.Ici now))
    (hlt : f now < g now) : Rises (fun t => min (f t) (g t)) now first := by
  refine FirstAfter.congr h fun t ht => ?_
  have hle : g now ≤ g t := hmono (le_refl now) ht.le ht.le
  show f now < f t ↔ min (f now) (g now) < min (f t) (g t)
  rw [min_eq_left hlt.le, lt_min_iff]
  exact ⟨fun hrisen => ⟨hrisen, hlt.trans_le hle⟩, And.left⟩

/-- Below a bound a quantity rises as before, and at the bound no more. -/
theorem Rises.min_bound (h : Rises f now first) (hmono : MonotoneOn f (Set.Ici now)) (bound : N) :
    Rises (fun t => min (f t) bound) now (if f now < bound then first else none) := by
  split
  case isTrue hlt => exact h.min_of_lt (fun _ _ _ _ _ => le_refl bound) hlt
  case isFalse hge =>
    intro t ht hrisen
    have hle : bound ≤ f now := not_lt.1 hge
    dsimp only at hrisen
    rw [min_eq_right hle, min_eq_right (hle.trans (hmono (le_refl now) ht.le ht.le))] at hrisen
    exact lt_irrefl _ hrisen

/-- Where both are equal, both have to rise. -/
theorem Rises.min_of_eq (hf : Rises f now first) (hg : Rises g now other)
    (hmono : MonotoneOn f (Set.Ici now)) (hmono' : MonotoneOn g (Set.Ici now))
    (heq : f now = g now) : Rises (fun t => min (f t) (g t)) now (whenBoth first other) := by
  have hiff : ∀ t, min (f now) (g now) < min (f t) (g t) ↔ f now < f t ∧ g now < g t := by
    intro t
    rw [← heq, min_self, lt_min_iff]
  cases hfirst : first with
  | none =>
      subst hfirst
      exact fun t ht hrisen => hf t ht ((hiff t).1 hrisen).1
  | some time =>
      cases hother : other with
      | none =>
          subst hother
          exact fun t ht hrisen => hg t ht ((hiff t).1 hrisen).2
      | some time' =>
          have hrisen := hf.lt_of_le hmono hfirst (le_max_left time time')
          have hrisen' := hg.lt_of_le hmono' hother (le_max_right time time')
          subst hfirst hother
          refine ⟨hf.1.trans_le (le_max_left _ _), (hiff _).2 ⟨hrisen, hrisen'⟩, ?_⟩
          intro t ht hbefore hboth
          rcases lt_max_iff.1 hbefore with hlt | hlt
          · exact hf.2.2 t ht hlt ((hiff t).1 hboth).1
          · exact hg.2.2 t ht hlt ((hiff t).1 hboth).2

end Lib
end ContestManagement
