import Mathlib.Data.Option.Basic
import Mathlib.Tactic.Common

/-!
# State machines, runs and invariants

A `Machine` has a partial step function; every choice the environment makes
(which thread moves, what an answer contains, what the clock reads) is part of
the label, so a run is a list of labels and can be executed.

`Path` is parametrised by a condition on the steps it may take.  Claims about
every run use the condition that is always true; claims about the runs whose
steps all meet some condition use that condition.
-/

namespace ContestManagement
namespace Lib

/-- A state machine with labelled partial steps. -/
structure Machine (σ α : Type*) where
  /-- The initial states. -/
  init : σ → Prop
  /-- One step; `none` when the label is not enabled. -/
  step : σ → α → Option σ

namespace Machine

variable {σ α : Type*} (M : Machine σ α)

/-- The states connected by steps that all satisfy `ok`. -/
inductive Path (ok : σ → α → Prop) : σ → σ → Prop
  | refl (s : σ) : Path ok s s
  | step {s t u : σ} {a : α} :
      Path ok s t → ok t a → M.step t a = some u → Path ok s u

/-- Reachable by a run whose steps all satisfy `ok`. -/
def ReachableVia (ok : σ → α → Prop) (s : σ) : Prop :=
  ∃ start, M.init start ∧ M.Path ok start s

/-- Reachable by any run. -/
def Reachable (s : σ) : Prop :=
  M.ReachableVia (fun _ _ => True) s

variable {M} {ok : σ → α → Prop}

/-- What one allowed step preserves, a path preserves. -/
theorem Path.preserves {I : σ → Prop}
    (hstep : ∀ s a t, I s → ok s a → M.step s a = some t → I t)
    {s t : σ} (hpath : M.Path ok s t) (hs : I s) : I t := by
  induction hpath with
  | refl => exact hs
  | step _ hok hmove ih => exact hstep _ _ _ ih hok hmove

theorem Path.trans {s t u : σ} (hst : M.Path ok s t) (htu : M.Path ok t u) : M.Path ok s u := by
  induction htu with
  | refl => exact hst
  | step _ hok hmove ih => exact ih.step hok hmove

/-- The invariant rule. -/
theorem ReachableVia.invariant {I : σ → Prop} (hinit : ∀ s, M.init s → I s)
    (hstep : ∀ s a t, I s → ok s a → M.step s a = some t → I t)
    {s : σ} (h : M.ReachableVia ok s) : I s := by
  obtain ⟨start, hstart, hpath⟩ := h
  exact hpath.preserves hstep (hinit start hstart)

theorem Reachable.invariant {I : σ → Prop} (hinit : ∀ s, M.init s → I s)
    (hstep : ∀ s a t, I s → M.step s a = some t → I t)
    {s : σ} (h : M.Reachable s) : I s :=
  ReachableVia.invariant hinit (fun s a t hs _ hmove => hstep s a t hs hmove) h

theorem ReachableVia.extend {s t : σ} (h : M.ReachableVia ok s) (hpath : M.Path ok s t) :
    M.ReachableVia ok t := by
  obtain ⟨start, hstart, hpath'⟩ := h
  exact ⟨start, hstart, hpath'.trans hpath⟩

variable (M)

/-- Execute a list of labels. -/
def exec (s : σ) : List α → Option σ
  | [] => some s
  | a :: rest => (M.step s a).bind fun t => exec t rest

variable {M}

theorem exec_append {first second : List α} {s u : σ} (h : M.exec s (first ++ second) = some u) :
    ∃ t, M.exec s first = some t ∧ M.exec t second = some u := by
  induction first generalizing s with
  | nil => exact ⟨s, rfl, h⟩
  | cons a rest ih =>
      rw [List.cons_append, exec, Option.bind_eq_some_iff] at h
      obtain ⟨mid, hmove, hrest⟩ := h
      obtain ⟨t, ht, hu⟩ := ih hrest
      exact ⟨t, by rw [exec, hmove, Option.bind_some, ht], hu⟩

/-- One more label after a run. -/
theorem exec_concat {labels : List α} {a : α} {s t u : σ} (h : M.exec s labels = some t)
    (hstep : M.step t a = some u) : M.exec s (labels ++ [a]) = some u := by
  induction labels generalizing s with
  | nil =>
      rw [exec, Option.some.injEq] at h
      rw [List.nil_append, exec, h, hstep, Option.bind_some, exec]
  | cons b rest ih =>
      rw [exec, Option.bind_eq_some_iff] at h
      obtain ⟨mid, hmove, hrest⟩ := h
      rw [List.cons_append, exec, hmove, Option.bind_some]
      exact ih hrest

theorem exec_singleton {a : α} {s t : σ} (h : M.exec s [a] = some t) : M.step s a = some t := by
  rw [exec, Option.bind_eq_some_iff] at h
  obtain ⟨mid, hmove, hmid⟩ := h
  rw [exec, Option.some.injEq] at hmid
  rw [hmove, hmid]

theorem path_of_exec {labels : List α} (hok : ∀ a ∈ labels, ∀ s, ok s a) {s t : σ}
    (h : M.exec s labels = some t) : M.Path ok s t := by
  induction labels generalizing s with
  | nil =>
      simp only [exec, Option.some.injEq] at h
      exact h ▸ Path.refl s
  | cons a rest ih =>
      rw [exec, Option.bind_eq_some_iff] at h
      obtain ⟨mid, hmove, hrest⟩ := h
      have hfirst : M.Path ok s mid := (Path.refl s).step (hok a (by simp) s) hmove
      exact hfirst.trans (ih (fun b hb => hok b (by simp [hb])) hrest)

/-- A concrete run witnesses reachability. -/
theorem reachable_of_exec {labels : List α} {start s : σ} (hstart : M.init start)
    (h : M.exec start labels = some s) : M.Reachable s :=
  ⟨start, hstart, path_of_exec (fun _ _ _ => trivial) h⟩

section Checked

variable (M) (ok) [∀ s a, Decidable (ok s a)]

/-- Execute a list of labels, as long as their steps satisfy `ok`. -/
def execVia (s : σ) : List α → Option σ
  | [] => some s
  | a :: rest => if ok s a then (M.step s a).bind fun t => execVia t rest else none

variable {M} {ok}

theorem path_of_execVia {labels : List α} {s t : σ} (h : M.execVia ok s labels = some t) :
    M.Path ok s t := by
  induction labels generalizing s with
  | nil =>
      simp only [execVia, Option.some.injEq] at h
      exact h ▸ Path.refl s
  | cons a rest ih =>
      rw [execVia] at h
      split at h
      case isFalse => cases h
      case isTrue hok =>
        rw [Option.bind_eq_some_iff] at h
        obtain ⟨mid, hmove, hrest⟩ := h
        have hfirst : M.Path ok s mid := (Path.refl s).step hok hmove
        exact hfirst.trans (ih hrest)

end Checked

end Machine

end Lib
end ContestManagement
