import ContestManagement.Lib.Machine
import ContestManagement.Watchdog.LedgerFile
import ContestManagement.Watchdog.Policy

/-!
# Runs of the watchdog

A run is a sequence of cycles, with restarts of the watchdog in between, after which only the
ledger is left.  Next to the state of the policy a run records the cycles since the watchdog
started and everything that was ever booked.

`decide_cases` says all that a cycle can do: it starts a batch, it restarts the program of one trip
that nothing holds, or it does nothing.
-/

namespace ContestManagement
namespace Watchdog

open Lib

/-- One call of `decide`. -/
structure Cycle where
  observation : Observation
  mono : ℚ
  wall : ℚ

structure Run where
  state : PolicyState
  /-- The last time of the clock. -/
  wall : ℚ
  /-- The cycles since the watchdog started. -/
  cycles : List Cycle
  /-- All that was ever booked, for real and in the shadow. -/
  booked : Bool → List Booking

inductive Label
  | cycle (observation : Observation) (mono wall : ℚ)
  /-- The ledger is saved and the watchdog starts again; the file may have become unreadable. -/
  | reload (readable : Bool) (wall : ℚ)

/-- What a cycle has booked: it comes behind what it has kept. -/
def PolicyState.newBookings (s : PolicyState) (o : Observation) (mono wall : ℚ) (shadow : Bool) :
    List Booking :=
  ((decide s o mono wall).1.ledger.bookings shadow).drop
    ((s.tracked o mono wall).ledger.bookings shadow).length

namespace Run

def step (r : Run) : Label → Option Run
  | .cycle o mono wall => some
      { state := (decide r.state o mono wall).1
        wall
        cycles := r.cycles ++ [⟨o, mono, wall⟩]
        booked := fun shadow => r.booked shadow ++ r.state.newBookings o mono wall shadow }
  | .reload readable wall =>
      let file := if readable then some r.state.ledger.file.toValue else none
      some { r with
        state := PolicyState.new r.state.mode r.state.restartClasses (Ledger.load file wall)
        wall
        cycles := [] }

end Run

/-- Runs with a mode and classes that stay as they are. -/
def machine (mode : Mode) (restartClasses : List Klass) : Machine Run Label where
  init r := r.state = PolicyState.new mode restartClasses Ledger.empty ∧ r.cycles = [] ∧
    ∀ shadow, r.booked shadow = []
  step := Run.step

/-! ## What a cycle can do -/

namespace PolicyState

variable {s : PolicyState} {o : Observation} {mono wall : ℚ} {allTrips : List Trip}
  {failing : List String} {decisions : List Decision}

theorem holds_of_acted (p : Program) (shadow : Bool) :
    s.holds o mono wall allTrips failing true p shadow ≠ [] := by
  simp [holds]

/-- After an action every trip is held. -/
theorem foldl_actOnTrip_of_acted (trips : List Trip) :
    trips.foldl (actOnTrip o mono wall allTrips failing) (s, true, decisions) =
      (s, true, decisions) := by
  induction trips with
  | nil => rfl
  | cons trip rest ih =>
      have hheld : actOnTrip o mono wall allTrips failing (s, true, decisions) trip =
          (s, true, decisions) := by
        unfold actOnTrip
        dsimp only
        split
        case h_1 hnone => exact absurd hnone (holds_of_acted _ _)
        case h_2 => rfl
      rw [List.foldl_cons, hheld, ih]

/-- The first trip that nothing holds is acted on, and it is the only one. -/
theorem foldl_actOnTrip_cases (trips : List Trip) :
    trips.foldl (actOnTrip o mono wall allTrips failing) (s, false, decisions) =
        (s, false, decisions) ∨
      ∃ trip ∈ trips,
        s.holds o mono wall allTrips failing false trip.program
            (s.shadowFor trip.program.klass) = [] ∧
          trips.foldl (actOnTrip o mono wall allTrips failing) (s, false, decisions) =
            ((s.restart mono wall trip (s.shadowFor trip.program.klass)).1, true, decisions ++
              [(s.restart mono wall trip (s.shadowFor trip.program.klass)).2]) := by
  induction trips with
  | nil => exact Or.inl rfl
  | cons trip rest ih =>
      cases hholds : s.holds o mono wall allTrips failing false trip.program
          (s.shadowFor trip.program.klass) with
      | nil =>
          right
          refine ⟨trip, List.mem_cons_self, hholds, ?_⟩
          have hacted : actOnTrip o mono wall allTrips failing (s, false, decisions) trip =
              ((s.restart mono wall trip (s.shadowFor trip.program.klass)).1, true, decisions ++
                [(s.restart mono wall trip (s.shadowFor trip.program.klass)).2]) := by
            simp [actOnTrip, hholds]
          rw [List.foldl_cons, hacted, foldl_actOnTrip_of_acted]
      | cons hold others =>
          have hheld : actOnTrip o mono wall allTrips failing (s, false, decisions) trip =
              (s, false, decisions) := by
            simp [actOnTrip, hholds]
          rw [List.foldl_cons, hheld]
          refine ih.imp id ?_
          rintro ⟨other, hmem, hfree, hfold⟩
          exact ⟨other, List.mem_cons_of_mem _ hmem, hfree, hfold⟩

/-- The decisions of the starts. -/
def startDecisions (s : PolicyState) (o : Observation) (mono wall : ℚ) : List Decision :=
  [false, true].flatMap fun shadow =>
    if (s.startBatch o mono wall shadow).isEmpty then []
    else [.start ((s.startBatch o mono wall shadow).map Program.name) (s.would shadow) shadow]

/-- The ledger after the starts. -/
def startLedger (s : PolicyState) (o : Observation) (mono wall : ℚ) : Ledger :=
  [false, true].foldl (fun l shadow =>
    (s.startBatch o mono wall shadow).foldl
      (fun l p => l.book (s.startBooking wall shadow p) shadow) l) s.ledger

theorem fatalStarts_eq (s : PolicyState) (o : Observation) (mono wall : ℚ) :
    s.fatalStarts o mono wall =
      ({ s with ledger := s.startLedger o mono wall }, s.startDecisions o mono wall) := by
  unfold fatalStarts bookBatch startLedger startDecisions
  cases hreal : s.startBatch o mono wall false with
  | nil =>
      cases hshadow : s.startBatch o mono wall true with
      | nil => simp [hreal, hshadow]
      | cons p rest => simp [hreal, hshadow]
  | cons p rest =>
      cases hshadow : s.startBatch o mono wall true with
      | nil => simp [hreal, hshadow]
      | cons p' rest' => simp [hreal, hshadow]

end PolicyState

variable {s : PolicyState} {o : Observation} {mono wall : ℚ}

theorem decide_of_starved (h : o.starved = true) :
    decide s o mono wall = (s.tracked o mono wall, []) := by
  simp [decide, h]

/-- All that a cycle can do. -/
theorem decide_cases (hstarved : o.starved = false) :
    (∃ decision rest, (s.tracked o mono wall).startDecisions o mono wall = decision :: rest ∧
        decide s o mono wall = ({ s.tracked o mono wall with
          ledger := (s.tracked o mono wall).startLedger o mono wall }, decision :: rest)) ∨
      (s.tracked o mono wall).startDecisions o mono wall = [] ∧
        (decide s o mono wall = (s.tracked o mono wall, []) ∨
          ∃ trip ∈ (s.tracked o mono wall).trips o mono wall,
            (s.tracked o mono wall).holds o mono wall ((s.tracked o mono wall).trips o mono wall)
                ((s.tracked o mono wall).half o) false trip.program
                ((s.tracked o mono wall).shadowFor trip.program.klass) = [] ∧
              decide s o mono wall =
                (((s.tracked o mono wall).restart mono wall trip
                  ((s.tracked o mono wall).shadowFor trip.program.klass)).1,
                [((s.tracked o mono wall).restart mono wall trip
                  ((s.tracked o mono wall).shadowFor trip.program.klass)).2])) := by
  generalize ht : s.tracked o mono wall = t
  have hdecide : decide s o mono wall =
      (let done := ({ t with ledger := t.startLedger o mono wall } : PolicyState).actOnTrips o mono
        wall (!(t.startDecisions o mono wall).isEmpty) (t.startDecisions o mono wall)
        (t.trips o mono wall) (t.half o)
      (done.1, done.2.2)) := by
    simp only [decide, hstarved, ht, PolicyState.fatalStarts_eq, Bool.false_eq_true, if_false]
  rw [hdecide]
  cases hstarts : t.startDecisions o mono wall with
  | cons decision rest =>
      left
      refine ⟨decision, rest, rfl, ?_⟩
      simp [PolicyState.actOnTrips, PolicyState.foldl_actOnTrip_of_acted]
  | nil =>
      right
      refine ⟨rfl, ?_⟩
      have hledger : t.startLedger o mono wall = t.ledger := by
        have hnone : ∀ shadow, t.startBatch o mono wall shadow = [] := by
          intro shadow
          simp only [PolicyState.startDecisions, List.flatMap_eq_nil_iff] at hstarts
          have hbatch := hstarts shadow (by cases shadow <;> simp)
          by_contra hne
          simp [hne] at hbatch
        simp [PolicyState.startLedger, hnone]
      have hsame : ({ t with ledger := t.startLedger o mono wall } : PolicyState) = t := by
        rw [hledger]
      rw [hsame]
      simp only [PolicyState.actOnTrips, List.isEmpty_nil, Bool.not_true]
      rcases PolicyState.foldl_actOnTrip_cases (s := t) (o := o) (t.trips o mono wall)
        with hnone | ⟨trip, hmem, hfree, hfold⟩
      · left
        rw [hnone]
      · right
        refine ⟨trip, hmem, hfree, ?_⟩
        rw [hfold]
        rfl

end Watchdog
end ContestManagement
