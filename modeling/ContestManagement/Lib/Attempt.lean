import ContestManagement.Lib.Python

/-!
# Computations that raise half-way

A computation that changes a state may raise when part of its changes are made.  An `Attempt`
is what it leaves: the state, changed as far as it came, and what it raised.  `outcome` forgets
the state of a computation that raised, which is how such a computation looks to code that
only reads its result.
-/

namespace ContestManagement
namespace Lib

/-- What a computation leaves. -/
structure Attempt (ε σ : Type) where
  state : σ
  raised : Option ε
  deriving DecidableEq

namespace Attempt

variable {α ε ε' σ τ : Type}

def done (s : σ) : Attempt ε σ := ⟨s, none⟩

def fail (s : σ) (e : ε) : Attempt ε σ := ⟨s, some e⟩

/-- Go on with the result of a computation that changes nothing. -/
def read (s : σ) (x : Except ε α) (f : α → Attempt ε σ) : Attempt ε σ :=
  match x with
  | .ok a => f a
  | .error e => fail s e

/-- Go on if nothing was raised. -/
def andThen (a : Attempt ε σ) (f : σ → Attempt ε σ) : Attempt ε σ :=
  match a.raised with
  | none => f a.state
  | some e => fail a.state e

/-- A loop, which ends with the first iteration that raises. -/
def each (f : σ → α → Attempt ε σ) : List α → σ → Attempt ε σ
  | [], s => done s
  | x :: rest, s => (f s x).andThen (each f rest)

/-- A computation on a part of a state, put back when it ends and when it raises. -/
def into (onDone onRaise : σ → τ) (a : Attempt ε σ) : Attempt ε τ :=
  match a.raised with
  | none => done (onDone a.state)
  | some e => fail (onRaise a.state) e

def mapRaised (f : ε → ε') (a : Attempt ε σ) : Attempt ε' σ :=
  ⟨a.state, a.raised.map f⟩

/-- The result, or what was raised. -/
def outcome (a : Attempt ε σ) : Except ε σ :=
  match a.raised with
  | none => .ok a.state
  | some e => .error e

/-! ## Outcomes -/

@[simp] theorem outcome_done (s : σ) : (done s : Attempt ε σ).outcome = .ok s := rfl

@[simp] theorem outcome_fail (s : σ) (e : ε) : (fail s e).outcome = .error e := rfl

theorem outcome_read (s : σ) (x : Except ε α) (f : α → Attempt ε σ) :
    (read s x f).outcome = x >>= fun a => (f a).outcome := by
  cases x with
  | error e => rfl
  | ok a => rfl

theorem outcome_andThen (a : Attempt ε σ) (f : σ → Attempt ε σ) :
    (a.andThen f).outcome = a.outcome >>= fun s => (f s).outcome := by
  obtain ⟨s, raised⟩ := a
  cases raised with
  | none => rfl
  | some e => rfl

theorem outcome_each (f : σ → α → Attempt ε σ) (xs : List α) (s : σ) :
    (each f xs s).outcome = xs.foldlM (fun s x => (f s x).outcome) s := by
  induction xs generalizing s with
  | nil => rfl
  | cons x rest ih =>
      rw [each, outcome_andThen, List.foldlM_cons]
      exact congrArg (bind (f s x).outcome) (funext ih)

theorem outcome_into (onDone onRaise : σ → τ) (a : Attempt ε σ) :
    (a.into onDone onRaise).outcome = a.outcome >>= fun s => .ok (onDone s) := by
  obtain ⟨s, raised⟩ := a
  cases raised with
  | none => rfl
  | some e => rfl

theorem outcome_mapRaised (f : ε → ε') (a : Attempt ε σ) :
    (a.mapRaised f).outcome = a.outcome.mapError f := by
  obtain ⟨s, raised⟩ := a
  cases raised with
  | none => rfl
  | some e => rfl

theorem outcome_eq_ok_iff {a : Attempt ε σ} {s : σ} : a.outcome = .ok s ↔ a = done s := by
  obtain ⟨s', raised⟩ := a
  cases raised with
  | none => simp [outcome, done]
  | some e => simp [outcome, done]

/-! ## What a computation leaves -/

/-- What every iteration leaves, also when it raises, the loop leaves. -/
theorem each_keeps {I : σ → Prop} {f : σ → α → Attempt ε σ} (hstep : ∀ s x, I s → I (f s x).state)
    (xs : List α) {s : σ} (hs : I s) : I (each f xs s).state := by
  induction xs generalizing s with
  | nil => exact hs
  | cons x rest ih =>
      have hfirst : I (f s x).state := hstep s x hs
      rw [each, andThen]
      split
      case h_1 => exact ih hfirst
      case h_2 => exact hfirst

end Attempt

end Lib
end ContestManagement
