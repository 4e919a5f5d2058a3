import ContestManagement.Lib.WriteAhead
import ContestManagement.Watchdog.Budgets

/-!
# A watchdog that may crash

The actions of a cycle run beside the next cycles.  Each first writes the ledger, and is not done if
that fails; a cycle writes the ledger at its end, too.  The process may end at any time, between any
two steps, and then only the file is left, which a crash may damage.

What the watchdog has done, a signal that was sent or a program that was started, stays within the
budgets all the same.
-/

namespace ContestManagement
namespace Watchdog

open Lib

/-- An action in flight: what it has left to do, each with its booking, and whether its own first
step, the booking, is behind it. -/
structure Task where
  decision : Decision
  left : List Booking
  booked : Bool

/-- The ledger file. -/
inductive FileState
  | missing
  /-- Its text is not that of a ledger. -/
  | damaged
  | holds (value : Json)

/-- How the process finds its file when it starts again. -/
inductive Found
  | intact
  /-- It cannot be read this time. -/
  | unreadable
  /-- The crash has damaged it. -/
  | damaged

/-- The process and its file. -/
structure Daemon where
  state : PolicyState
  /-- The last time of the clock. -/
  wall : ℚ
  file : FileState
  /-- The task of the last cycle that acted. -/
  flight : List Task
  /-- The bookings of what was really done. -/
  done : List Booking

inductive Step
  /-- A cycle; `saved` says whether it could write the ledger. -/
  | cycle (observation : Observation) (mono wall : ℚ) (saved : Bool)
  /-- The first step of an action. -/
  | book (written : Bool)
  /-- The next step of an action, with a signal or a start, or without one. -/
  | act (sent : Bool)
  /-- The process ends and starts again. -/
  | crash (found : Found) (wall : ℚ)

def Decision.would : Decision → Bool
  | .restart _ _ would _ => would
  | .start _ would _ => would

/-- What a task will do: a dry run does nothing. -/
def Task.real (task : Task) : List Booking := if task.decision.would then [] else task.left

/-- The file after a crash. -/
def FileState.afterCrash (file : FileState) : Found → FileState
  | .damaged => .damaged
  | _ => file

/-- `load_ledger`: a ledger that was never written starts empty. -/
def loadLedger (file : FileState) (found : Found) (wall : ℚ) : Ledger :=
  match file with
  | .missing => Ledger.empty
  | .damaged => Ledger.exhausted wall
  | .holds value => Ledger.load (if found matches .unreadable then none else some value) wall

namespace Daemon

/-- The task of a cycle. -/
def tasks (d : Daemon) (o : Observation) (mono wall : ℚ) : List Task :=
  (decide d.state o mono wall).2.map fun decision =>
    ⟨decision, d.state.newBookings o mono wall decision.inShadow, false⟩

def step (d : Daemon) : Step → Option Daemon
  | .cycle o mono wall saved =>
      -- An action that is in flight when a cycle starts is in flight for the whole cycle.
      if d.flight ≠ [] ∧ o.inFlight = false then none
      else
        let state := (decide d.state o mono wall).1
        some { d with
          state := state
          wall := wall
          file := if saved then .holds state.ledger.file.toValue else d.file
          flight := if d.tasks o mono wall = [] then d.flight else d.tasks o mono wall }
  | .book written =>
      match d.flight with
      | ⟨decision, left, false⟩ :: rest =>
          if written then
            some { d with
              file := .holds d.state.ledger.file.toValue
              flight := ⟨decision, left, true⟩ :: rest }
          else some { d with flight := rest }
      | _ => none
  | .act sent =>
      match d.flight with
      | ⟨decision, b :: left, true⟩ :: rest =>
          some { d with
            flight := if left = [] then rest else ⟨decision, left, true⟩ :: rest
            done := if sent && !decision.would then d.done ++ [b] else d.done }
      | _ => none
  | .crash found wall =>
      let file := d.file.afterCrash found
      some { d with
        state := PolicyState.new d.state.mode d.state.restartClasses (loadLedger file found wall)
        wall := wall
        file := file
        flight := [] }

/-- The clock does not go back. -/
def Forward (d : Daemon) : Step → Prop
  | .cycle _ _ wall _ => d.wall ≤ wall
  | .crash _ wall => d.wall ≤ wall
  | _ => True

instance (d : Daemon) (label : Step) : Decidable (d.Forward label) :=
  match label with
  | .cycle _ _ wall _ => inferInstanceAs (Decidable (d.wall ≤ wall))
  | .crash _ wall => inferInstanceAs (Decidable (d.wall ≤ wall))
  | .book _ => inferInstanceAs (Decidable True)
  | .act _ => inferInstanceAs (Decidable True)

end Daemon

/-- A watchdog that starts without a ledger. -/
def daemonMachine (mode : Mode) (restartClasses : List Klass) : Machine Daemon Step where
  init d := d.state = PolicyState.new mode restartClasses Ledger.empty ∧ d.file = .missing ∧
    d.flight = [] ∧ d.done = []
  step := Daemon.step

theorem WithinBudgets.sublist {journal fewer : List Booking} (h : WithinBudgets journal)
    (hfewer : fewer.Sublist journal) : WithinBudgets fewer :=
  ⟨fun program => (h.ofProgram program).sublist hfewer, fun pool => (h.ofPool pool).sublist hfewer,
    fun program => (h.ofStarts program).sublist hfewer⟩

/-- What a ledger knows at a time, it knows later. -/
theorem Ledger.Accounts.mono {l : Ledger} {shadow : Bool} {journal : List Booking} {wall wall' : ℚ}
    (h : l.Accounts shadow journal wall) (hwall : wall ≤ wall') :
    l.Accounts shadow journal wall' :=
  ⟨fun b hb => (h.past b hb).trans hwall, fun b hb => (h.kept b hb).trans hwall,
    fun now hnow => h.agrees now (hwall.trans hnow)⟩

/-- A file accounts for a journal: a damaged one will count as used up whatever there was. -/
structure FileState.Accounts (file : FileState) (saved : List Booking) (wall : ℚ) : Prop where
  missing : file = .missing → saved = []
  holds : ∀ value, file = .holds value → ∃ l : Ledger, value = l.file.toValue ∧
    l.Accounts false saved wall
  past : ∀ b ∈ saved, b.wall ≤ wall

namespace FileState

variable {file : FileState} {saved : List Booking} {wall wall' : ℚ}

theorem Accounts.mono (h : file.Accounts saved wall) (hwall : wall ≤ wall') :
    file.Accounts saved wall' := by
  refine ⟨h.missing, fun value hvalue => ?_, fun b hb => (h.past b hb).trans hwall⟩
  obtain ⟨l, hl, haccounts⟩ := h.holds value hvalue
  exact ⟨l, hl, haccounts.mono hwall⟩

theorem Accounts.of_ledger {l : Ledger} (h : l.Accounts false saved wall) :
    (FileState.holds l.file.toValue).Accounts saved wall := by
  refine ⟨fun hmissing => ?_, fun value hvalue => ?_, h.past⟩
  · cases hmissing
  · cases hvalue
    exact ⟨l, rfl, h⟩

theorem Accounts.afterCrash (h : file.Accounts saved wall) (found : Found) :
    (file.afterCrash found).Accounts saved wall := by
  cases found with
  | intact => exact h
  | unreadable => exact h
  | damaged =>
      refine ⟨fun hmissing => ?_, fun value hvalue => ?_, h.past⟩
      · cases hmissing
      · cases hvalue

/-- What is loaded accounts for what was saved. -/
theorem Accounts.loadLedger (h : file.Accounts saved wall) (hwall : wall ≤ wall') (found : Found) :
    (loadLedger file found wall').Accounts false saved wall' := by
  have hpast : ∀ b ∈ saved, b.wall ≤ wall' := fun b hb => (h.past b hb).trans hwall
  cases hfile : file with
  | missing =>
      rw [h.missing hfile]
      refine ⟨fun b hb => ?_, fun b hb => ?_, fun _ _ _ => rfl⟩
      · cases hb
      · cases hb
  | damaged => exact Ledger.Accounts.of_exhausted hpast
  | holds value =>
      obtain ⟨l, rfl, haccounts⟩ := h.holds value hfile
      cases found with
      | intact => exact haccounts.load hwall true
      | unreadable => exact haccounts.load hwall false
      | damaged => exact haccounts.load hwall true

end FileState

/-! ## The actions of a cycle -/

section Decide

variable {s : PolicyState} {o : Observation} {mono wall : ℚ}

theorem PolicyState.closeRed_mode (s : PolicyState) (wall : ℚ) : (s.closeRed wall).mode = s.mode := by
  unfold PolicyState.closeRed
  split
  case h_1 => rfl
  case h_2 => rfl

theorem PolicyState.trackGate_mode : (s.trackGate o mono wall).mode = s.mode := by
  unfold PolicyState.trackGate
  split
  case isTrue => rfl
  case isFalse =>
    split
    case isTrue => rfl
    case isFalse =>
      split
      case isTrue => exact s.closeRed_mode wall
      case isFalse =>
        split
        case isTrue => rfl
        case isFalse => rfl

theorem PolicyState.tracked_mode : (s.tracked o mono wall).mode = s.mode := by
  rw [PolicyState.tracked_eq]
  exact PolicyState.trackPause_mode.1.trans PolicyState.trackGate_mode

/-- A would-action is one of observe mode or of the shadow ledger. -/
theorem would_of_mem_decide {d : Decision} (h : d ∈ (decide s o mono wall).2) :
    d.would = s.would d.inShadow := by
  have hwould : ∀ shadow, (s.tracked o mono wall).would shadow = s.would shadow := fun shadow => by
    rw [PolicyState.would, PolicyState.tracked_mode, PolicyState.would]
  rcases @decide_cases s o mono wall (of_mem_decide h).1 with
    ⟨decision, rest, hstarts, hdecide⟩ | ⟨-, hdecide | ⟨trip, -, -, hdecide⟩⟩
  · rw [hdecide, ← hstarts, PolicyState.startDecisions, List.mem_flatMap] at h
    obtain ⟨shadow, -, hd⟩ := h
    split at hd
    case isTrue => cases hd
    case isFalse =>
      obtain rfl := List.mem_singleton.1 hd
      exact hwould shadow
  · rw [hdecide] at h
    cases h
  · rw [hdecide] at h
    obtain rfl := List.mem_singleton.1 h
    exact hwould _

theorem decide_mode : (decide s o mono wall).1.mode = s.mode := by
  have hframe : (decide s o mono wall).1.mode = (s.tracked o mono wall).mode :=
    decide_frame PolicyState.mode (fun _ => rfl) fun _ _ _ => rfl
  rw [hframe, PolicyState.tracked_mode]

end Decide

namespace Daemon

variable {d d' : Daemon} {o : Observation} {mono wall : ℚ}

/-- At most one of some decisions is not in the shadow, so it alone does what is booked for real. -/
theorem flatMap_real_sublist {decisions : List Decision} {new : List Booking}
    {bookings : Decision → List Booking}
    (hnodup : (decisions.map Decision.inShadow).Nodup)
    (hreal : ∀ decision ∈ decisions, decision.inShadow = false → (bookings decision).Sublist new)
    (hshadow : ∀ decision ∈ decisions, decision.inShadow = true → bookings decision = []) :
    (decisions.flatMap bookings).Sublist new := by
  induction decisions with
  | nil => exact List.nil_sublist _
  | cons decision rest ih =>
      rw [List.map_cons, List.nodup_cons] at hnodup
      have hrest := ih hnodup.2 (fun e he => hreal e (List.mem_cons_of_mem _ he))
        fun e he => hshadow e (List.mem_cons_of_mem _ he)
      rw [List.flatMap_cons]
      cases hside : decision.inShadow with
      | true =>
          rw [hshadow decision List.mem_cons_self hside]
          exact hrest
      | false =>
          have hnone : rest.flatMap bookings = [] := by
            rw [List.flatMap_eq_nil_iff]
            intro e he
            apply hshadow e (List.mem_cons_of_mem _ he)
            cases hside' : e.inShadow with
            | true => rfl
            | false =>
                refine absurd ?_ hnodup.1
                rw [hside, ← hside']
                exact List.mem_map_of_mem he
          rw [hnone, List.append_nil]
          exact hreal decision List.mem_cons_self hside

theorem tasks_real_sublist :
    ((d.tasks o mono wall).flatMap Task.real).Sublist (d.state.newBookings o mono wall false) := by
  have hnodup : ((decide d.state o mono wall).2.map Decision.inShadow).Nodup := by
    rcases @decide_actions d.state o mono wall with ⟨decision, hdecide, -⟩ | ⟨-, hnodup⟩
    · rw [hdecide]
      exact List.nodup_singleton _
    · exact hnodup
  rw [tasks, List.flatMap_map]
  apply flatMap_real_sublist hnodup
  · intro decision _ hside
    rw [Task.real, hside]
    split
    case isTrue => exact List.nil_sublist _
    case isFalse => exact List.Sublist.refl _
  · intro decision hdecision hside
    rw [Task.real, would_of_mem_decide hdecision, hside, PolicyState.would, Bool.or_true, if_pos rfl]

/-- Nothing is decided while an action is in flight. -/
theorem tasks_of_inFlight (h : o.inFlight = true) : d.tasks o mono wall = [] := by
  rw [tasks, List.map_eq_nil_iff, List.eq_nil_iff_forall_not_mem]
  intro decision hdecision
  have hflight := (of_mem_decide hdecision).2.2.2.1
  rw [h] at hflight
  cases hflight

/-! ## The books of a watchdog -/

/-- What the task in flight may do now. -/
def ready : List Task → List Booking
  | ⟨decision, left, true⟩ :: _ => Task.real ⟨decision, left, true⟩
  | _ => []

/-- What comes later. -/
def waiting : List Task → List Booking
  | ⟨_, _, true⟩ :: rest => rest.flatMap Task.real
  | flight => flight.flatMap Task.real

/-- The books behind a watchdog: the ledger in memory accounts for what is known, and the one in the
file for what is saved. -/
structure Sound (d : Daemon) (b : Books Booking) : Prop where
  ahead : b.Ahead
  done : b.done = d.done
  ready : b.ready = Daemon.ready d.flight
  waiting : b.waiting = Daemon.waiting d.flight
  later : ∀ task ∈ d.flight.tail, task.booked = false
  known : d.state.ledger.Accounts false b.known d.wall
  within : WithinBudgets b.known
  file : d.file.Accounts b.saved d.wall
  /-- What may be done now is in a file that is there. -/
  written : b.ready ≠ [] → ∃ value, d.file = .holds value
  savedWithin : WithinBudgets b.saved

/-- Tasks that have not begun. -/
theorem ready_of_unbooked {flight : List Task} (h : ∀ task ∈ flight, task.booked = false) :
    Daemon.ready flight = [] ∧ Daemon.waiting flight = flight.flatMap Task.real := by
  cases flight with
  | nil => exact ⟨rfl, rfl⟩
  | cons task rest =>
      obtain ⟨decision, left, booked⟩ := task
      have hbooked : booked = false := h _ List.mem_cons_self
      subst hbooked
      exact ⟨rfl, rfl⟩

/-- The flight after a step of its first task. -/
theorem ready_of_booked {decision : Decision} {left : List Booking} {rest : List Task}
    (h : ∀ task ∈ rest, task.booked = false) :
    Daemon.ready (if left = [] then rest else ⟨decision, left, true⟩ :: rest) =
        Task.real ⟨decision, left, true⟩ ∧
      Daemon.waiting (if left = [] then rest else ⟨decision, left, true⟩ :: rest) =
        rest.flatMap Task.real := by
  by_cases hleft : left = []
  · subst hleft
    rw [if_pos rfl, Task.real, ite_self]
    exact ready_of_unbooked h
  · rw [if_neg hleft]
    exact ⟨rfl, rfl⟩

variable {b : Books Booking}

/-- The ledger is written. -/
theorem Sound.save (h : d.Sound b) :
    Sound { d with file := .holds d.state.ledger.file.toValue } { b with saved := b.known } where
  ahead := h.ahead.move (.save b)
  done := h.done
  ready := h.ready
  waiting := h.waiting
  later := h.later
  known := h.known
  within := h.within
  file := FileState.Accounts.of_ledger h.known
  written := fun _ => ⟨_, rfl⟩
  savedWithin := h.within

/-- A cycle before it writes the ledger. -/
theorem Sound.decide (h : d.Sound b) (hwall : d.wall ≤ wall)
    (hflight : ¬(d.flight ≠ [] ∧ o.inFlight = false)) :
    ∃ b', Sound
      { d with
        state := (Watchdog.decide d.state o mono wall).1
        wall := wall
        flight := if d.tasks o mono wall = [] then d.flight else d.tasks o mono wall } b' := by
  have htracked := @PolicyState.accounts_tracked _ o mono _ _ _ _ h.known hwall
  obtain ⟨hbookings, hafford⟩ := @newBookings_spec d.state o mono wall false
  have hchosen := @tasks_real_sublist d o mono wall
  generalize d.state.newBookings o mono wall false = new at hbookings hafford hchosen
  have hknown := htracked.append hafford.now hbookings decide_exhaustedUntil
  have hwithin : WithinBudgets (b.known ++ new) := by
    cases hcase : new with
    | nil => simpa using h.within
    | cons first rest =>
        rw [hcase] at hafford
        have hagrees := htracked.agrees wall le_rfl (hafford.notExhausted (List.cons_ne_nil _ _))
        exact h.within.append_all (Run.FitAll.congr hafford.now hagrees hafford.fits)
  have hfile : d.file.Accounts b.saved wall := h.file.mono hwall
  by_cases hnone : d.tasks o mono wall = []
  · rw [if_pos hnone]
    exact ⟨{ b with known := b.known ++ new }, h.ahead.move (.note new), h.done, h.ready, h.waiting,
      h.later, hknown, hwithin, hfile, h.written, h.savedWithin⟩
  · -- So nothing was in flight.
    have hidle : d.flight = [] := by
      by_contra hbusy
      refine hnone (tasks_of_inFlight ?_)
      cases hin : o.inFlight with
      | true => rfl
      | false => exact absurd ⟨hbusy, hin⟩ hflight
    rw [if_neg hnone]
    have hready : b.ready = [] := by
      rw [h.ready, hidle]
      rfl
    have hwaiting : b.waiting = [] := by
      rw [h.waiting, hidle]
      rfl
    have hnew' : ∀ task ∈ d.tasks o mono wall, task.booked = false := by
      intro task htask
      obtain ⟨decision, -, rfl⟩ := List.mem_map.1 htask
      rfl
    obtain ⟨hreadyNew, hwaitingNew⟩ := ready_of_unbooked hnew'
    exact ⟨{ b with known := b.known ++ new, waiting := (d.tasks o mono wall).flatMap Task.real },
      h.ahead.move (.book new _ ⟨hready, hwaiting⟩ hchosen), h.done, hready.trans hreadyNew.symm,
      hwaitingNew.symm, fun task htask => hnew' task (List.mem_of_mem_tail htask), hknown, hwithin,
      hfile, h.written, h.savedWithin⟩

theorem Sound.cycle {saved : Bool} (h : d.Sound b) (hwall : d.wall ≤ wall)
    (hstep : d.step (.cycle o mono wall saved) = some d') : ∃ b', d'.Sound b' := by
  rw [step] at hstep
  split at hstep
  case isTrue => cases hstep
  case isFalse hflight =>
    obtain rfl := Option.some.inj hstep
    obtain ⟨b', hsound⟩ := @Sound.decide d o mono wall b h hwall hflight
    cases saved with
    | false => exact ⟨b', hsound⟩
    | true => exact ⟨_, hsound.save⟩

theorem Sound.book {written : Bool} (h : d.Sound b) (hstep : d.step (.book written) = some d') :
    ∃ b', d'.Sound b' := by
  rw [step] at hstep
  split at hstep
  case h_1 decision left rest hflight =>
    have hready : b.ready = [] := by
      rw [h.ready, hflight]
      rfl
    have hwaiting : b.waiting = Task.real ⟨decision, left, false⟩ ++ rest.flatMap Task.real := by
      rw [h.waiting, hflight]
      rfl
    have hlater : ∀ task ∈ rest, task.booked = false := by
      have htail := h.later
      rw [hflight] at htail
      exact htail
    split at hstep
    case isTrue =>
      obtain rfl := Option.some.inj hstep
      have hsaved := h.save
      exact ⟨_, h.ahead.move (.release _ _ hready hwaiting), h.done, rfl, rfl, hlater, h.known,
        h.within, hsaved.file, fun _ => ⟨_, rfl⟩, hsaved.savedWithin⟩
    case isFalse =>
      obtain rfl := Option.some.inj hstep
      obtain ⟨hreadyRest, hwaitingRest⟩ := ready_of_unbooked hlater
      exact ⟨{ b with waiting := rest.flatMap Task.real }, h.ahead.move (.giveUp _ _ hwaiting),
        h.done, hready.trans hreadyRest.symm, hwaitingRest.symm,
        fun task htask => hlater task (List.mem_of_mem_tail htask), h.known, h.within, h.file,
        h.written, h.savedWithin⟩
  case h_2 => cases hstep

theorem Sound.act {sent : Bool} (h : d.Sound b) (hstep : d.step (.act sent) = some d') :
    ∃ b', d'.Sound b' := by
  rw [step] at hstep
  split at hstep
  case h_1 decision first left rest hflight =>
    obtain rfl := Option.some.inj hstep
    have hlater : ∀ task ∈ rest, task.booked = false := by
      have htail := h.later
      rw [hflight] at htail
      exact htail
    obtain ⟨hreadyNext, hwaitingNext⟩ := @ready_of_booked decision left rest hlater
    have hready : b.ready = Task.real ⟨decision, first :: left, true⟩ := by
      rw [h.ready, hflight]
      rfl
    have hwaiting : b.waiting = rest.flatMap Task.real := by
      rw [h.waiting, hflight]
      rfl
    have hlaterNext : ∀ task ∈ (if left = [] then rest else ⟨decision, left, true⟩ :: rest).tail,
        task.booked = false := by
      intro task htask
      split at htask
      case isTrue => exact hlater task (List.mem_of_mem_tail htask)
      case isFalse => exact hlater task htask
    cases hwould : decision.would with
    | true =>
        -- A dry run.
        rw [Task.real, hwould, if_pos rfl] at hready hreadyNext
        rw [Bool.not_true, Bool.and_false, if_neg Bool.false_ne_true]
        exact ⟨b, h.ahead, h.done, hready.trans hreadyNext.symm, hwaiting.trans hwaitingNext.symm,
          hlaterNext, h.known, h.within, h.file, h.written, h.savedWithin⟩
    | false =>
        rw [Task.real, hwould, if_neg Bool.false_ne_true] at hready hreadyNext
        rw [Bool.not_false, Bool.and_true]
        have hwritten : ∃ value, d.file = .holds value :=
          h.written (by rw [hready]; exact List.cons_ne_nil _ _)
        cases sent with
        | true =>
            rw [if_pos rfl]
            exact ⟨_, h.ahead.move (.act first left hready), congrArg (· ++ [first]) h.done,
              hreadyNext.symm, hwaiting.trans hwaitingNext.symm, hlaterNext, h.known, h.within,
              h.file, fun _ => hwritten, h.savedWithin⟩
        | false =>
            rw [if_neg Bool.false_ne_true]
            exact ⟨_, h.ahead.move (.pass first left hready), h.done, hreadyNext.symm,
              hwaiting.trans hwaitingNext.symm, hlaterNext, h.known, h.within, h.file,
              fun _ => hwritten, h.savedWithin⟩
  case h_2 => cases hstep

theorem Sound.crash {found : Found} (h : d.Sound b) (hwall : d.wall ≤ wall)
    (hstep : d.step (.crash found wall) = some d') : ∃ b', d'.Sound b' := by
  rw [step] at hstep
  obtain rfl := Option.some.inj hstep
  have hfile := h.file.afterCrash found
  refine ⟨_, h.ahead.move (.crash b), h.done, rfl, rfl, ?_, hfile.loadLedger hwall found,
    h.savedWithin, hfile.mono hwall, fun hready => absurd rfl hready, h.savedWithin⟩
  intro task htask
  cases htask

theorem sound_of_reachable {mode : Mode} {restartClasses : List Klass}
    (h : (daemonMachine mode restartClasses).ReachableVia Forward d) : ∃ b, d.Sound b := by
  refine Machine.ReachableVia.invariant (I := fun d => ∃ b, d.Sound b) ?_ ?_ h
  · rintro start ⟨hstate, hfile, hflight, hdone⟩
    refine ⟨Books.start, Books.ahead_start, hdone.symm, ?_, ?_, ?_, ?_, withinBudgets_nil,
      ⟨fun _ => rfl, ?_, ?_⟩, fun hready => absurd rfl hready, withinBudgets_nil⟩
    · rw [hflight]
      rfl
    · rw [hflight]
      rfl
    · intro task htask
      rw [hflight] at htask
      cases htask
    · rw [hstate]
      refine ⟨?_, ?_, fun _ _ _ => rfl⟩
      · intro x hx
        cases hx
      · intro x hx
        cases hx
    · intro value hvalue
      rw [hfile] at hvalue
      cases hvalue
    · intro x hx
      cases hx
  · rintro d label d' ⟨b, hsound⟩ hforward hstep
    cases label with
    | cycle o mono wall saved => exact hsound.cycle hforward hstep
    | book written => exact hsound.book hstep
    | act sent => exact hsound.act hstep
    | crash found wall => exact hsound.crash hforward hstep

/-- In observe mode every task is a dry run. -/
structure OnlyWatches (d : Daemon) : Prop where
  mode : d.state.mode = .observe
  flight : ∀ task ∈ d.flight, task.decision.would = true
  done : d.done = []

theorem OnlyWatches.step {label : Step} (h : d.OnlyWatches) (hstep : d.step label = some d') :
    d'.OnlyWatches := by
  cases label with
  | cycle o mono wall saved =>
      rw [Daemon.step] at hstep
      split at hstep
      case isTrue => cases hstep
      case isFalse =>
        obtain rfl := Option.some.inj hstep
        refine ⟨decide_mode.trans h.mode, fun task htask => ?_, h.done⟩
        dsimp only at htask
        split at htask
        case isTrue => exact h.flight task htask
        case isFalse =>
          obtain ⟨decision, hdecision, rfl⟩ := List.mem_map.1 htask
          rw [would_of_mem_decide hdecision, PolicyState.would, h.mode]
          rfl
  | book written =>
      rw [Daemon.step] at hstep
      split at hstep
      case h_1 decision left rest hflight =>
        have hall := h.flight
        rw [hflight] at hall
        split at hstep
        case isTrue =>
          obtain rfl := Option.some.inj hstep
          have hhead : decision.would = true := hall ⟨decision, left, false⟩ List.mem_cons_self
          refine ⟨h.mode, fun task htask => ?_, h.done⟩
          rcases List.mem_cons.1 htask with rfl | htask
          · exact hhead
          · exact hall task (List.mem_cons_of_mem _ htask)
        case isFalse =>
          obtain rfl := Option.some.inj hstep
          exact ⟨h.mode, fun task htask => hall task (List.mem_cons_of_mem _ htask), h.done⟩
      case h_2 => cases hstep
  | act sent =>
      rw [Daemon.step] at hstep
      split at hstep
      case h_1 decision first left rest hflight =>
        have hall := h.flight
        rw [hflight] at hall
        obtain rfl := Option.some.inj hstep
        have hhead : decision.would = true :=
          hall ⟨decision, first :: left, true⟩ List.mem_cons_self
        refine ⟨h.mode, fun task htask => ?_, ?_⟩
        · dsimp only at htask
          split at htask
          case isTrue => exact hall task (List.mem_cons_of_mem _ htask)
          case isFalse =>
            rcases List.mem_cons.1 htask with rfl | htask
            · exact hhead
            · exact hall task (List.mem_cons_of_mem _ htask)
        · dsimp only
          rw [hhead, Bool.not_true,
            Bool.and_false, if_neg Bool.false_ne_true, h.done]
      case h_2 => cases hstep
  | crash found wall =>
      rw [Daemon.step] at hstep
      obtain rfl := Option.some.inj hstep
      refine ⟨h.mode, fun task htask => ?_, h.done⟩
      cases htask

end Daemon

/-- A ledger has what was done and is recent, unless it counts as exhausted. -/
def Daemon.KnownTo (d : Daemon) (l : Ledger) : Prop :=
  ∀ now, d.wall ≤ now → (∀ stop, l.exhaustedUntil = some stop → stop ≤ now) →
    (recent Booking.wall budgetWindowS now d.done).Sublist l.real

namespace Daemon

variable {d d' : Daemon} {b : Books Booking}

theorem KnownTo.of_accounts {l : Ledger} {journal : List Booking}
    (h : l.Accounts false journal d.wall) (hdone : d.done.Sublist journal) : d.KnownTo l := by
  intro now hnow hopen
  have hrecent : (recent Booking.wall budgetWindowS now d.done).Sublist
      (recent Booking.wall budgetWindowS now journal) := hdone.filter _
  rw [← h.agrees now hnow hopen] at hrecent
  exact hrecent.trans List.filter_sublist

theorem Sound.knownTo_file (h : d.Sound b) {value : Json} (hfile : d.file = .holds value) :
    ∃ l : Ledger, value = l.file.toValue ∧ d.KnownTo l := by
  obtain ⟨l, hl, haccounts⟩ := h.file.holds value hfile
  have hsaved := h.ahead.done_saved
  rw [h.done] at hsaved
  exact ⟨l, hl, .of_accounts haccounts hsaved⟩

theorem file_of_act {sent : Bool} (hstep : d.step (.act sent) = some d') : d'.file = d.file := by
  rw [step] at hstep
  split at hstep
  case h_1 => rw [← Option.some.inj hstep]
  case h_2 => cases hstep

/-- An action that is done was written down before. -/
theorem Sound.written_of_act (h : d.Sound b) (hstep : d.step (.act true) = some d')
    (hdone : d'.done ≠ d.done) : ∃ value, d.file = .holds value := by
  rw [step] at hstep
  split at hstep
  case h_1 decision first left rest hflight =>
    obtain rfl := Option.some.inj hstep
    apply h.written
    rw [h.ready, hflight, Daemon.ready, Task.real]
    cases hwould : decision.would with
    | true =>
        rw [hwould] at hdone
        exact absurd rfl hdone
    | false => exact List.cons_ne_nil _ _
  case h_2 => cases hstep

end Daemon

/-- What the watchdog has really done stays within the budgets, whenever it crashes, whatever it could
not write and whatever it could not read back.  It is done only when it is in the file.  Afterwards
the ledger in memory has what is recent of it, and so has the file until a crash damages it, unless
the budgets count as used up. -/
theorem crashes_keep_budgets {mode : Mode} {restartClasses : List Klass} {d : Daemon}
    (h : (daemonMachine mode restartClasses).ReachableVia Daemon.Forward d) :
    WithinBudgets d.done ∧
      (∀ d', d.step (.act true) = some d' → d'.done ≠ d.done →
        ∃ l : Ledger, d.file = .holds l.file.toValue ∧ d'.KnownTo l) ∧
      (d.done ≠ [] → d.file ≠ .missing) ∧
      (∀ value, d.file = .holds value → ∃ l : Ledger, value = l.file.toValue ∧ d.KnownTo l) ∧
      d.KnownTo d.state.ledger ∧
      (mode = .observe → d.done = []) := by
  obtain ⟨b, hsound⟩ := Daemon.sound_of_reachable h
  have hknown := hsound.ahead.done_known
  have hsaved := hsound.ahead.done_saved
  rw [hsound.done] at hknown hsaved
  refine ⟨hsound.within.sublist hknown, fun d' hstep hdone => ?_, fun hne hmissing => ?_,
    fun value hvalue => hsound.knownTo_file hvalue, .of_accounts hsound.known hknown, ?_⟩
  · obtain ⟨value, hvalue⟩ := hsound.written_of_act hstep hdone
    obtain ⟨b', hsound'⟩ := hsound.act hstep
    have hsame : d'.file = d.file := Daemon.file_of_act hstep
    obtain ⟨l, rfl, hl⟩ := hsound'.knownTo_file (hsame.trans hvalue)
    exact ⟨l, hvalue, hl⟩
  · rw [hsound.file.missing hmissing, List.sublist_nil] at hsaved
    exact hne hsaved
  · rintro rfl
    have hwatches : d.OnlyWatches := by
      refine Machine.ReachableVia.invariant (I := Daemon.OnlyWatches) ?_ ?_ h
      · rintro start ⟨hstate, -, hflight, hdone⟩
        refine ⟨by rw [hstate]; rfl, fun task htask => ?_, hdone⟩
        rw [hflight] at htask
        cases htask
      · intro d label d' hd _ hstep
        exact hd.step hstep
    exact hwatches.done

/-- The watchdog restarts the evaluation service, and crashes before and after that. -/
def crashed : Daemon :=
  ((daemonMachine .enforce [.core]).execVia Daemon.Forward
      ⟨PolicyState.new .enforce [.core] Ledger.empty, 0, .missing, [], []⟩
      (([0, 30, 60, 90, 120].map fun mono =>
          Step.cycle (smallSystem 0 (.green []) false) mono (1000 + mono) true) ++
        [.crash .intact 1125] ++
        ([130, 160, 190, 220, 250].map fun mono =>
          Step.cycle (smallSystem 0 (.green []) false) mono (1000 + mono) true) ++
        [.book true, .act true, .crash .damaged 1260])).get (by decide +kernel)

theorem crashes_keep_budgets_crashed :
    crashed.done.map (fun b => (b.program, b.action, b.wall)) = [("es", .restart, 1250)] ∧
      WithinBudgets crashed.done := by
  have hreach : (daemonMachine .enforce [.core]).ReachableVia Daemon.Forward crashed :=
    ⟨_, ⟨rfl, rfl, rfl, rfl⟩, Machine.path_of_execVia (Option.some_get _).symm⟩
  exact ⟨by decide +kernel, (crashes_keep_budgets hreach).1⟩

end Watchdog
end ContestManagement
