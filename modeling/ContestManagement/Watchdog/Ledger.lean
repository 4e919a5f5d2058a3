import Mathlib.Data.Rat.Defs
import Mathlib.Algebra.Order.Ring.Unbundled.Rat
import Mathlib.Data.List.Sort
import ContestManagement.Lib.Dict

/-!
# The ledger of the watchdog

The ledger holds the bookings of the last hour, the red intervals of the database gate, and until
when the budgets count as exhausted.  It is pruned in every cycle and survives a restart of the
watchdog as a JSON file; a file that does not parse is replaced by a ledger whose budgets are
exhausted for an hour.

Times are in seconds.  `round` is what the arithmetic on them does to a result; it is `id` where
times are exact.  The open incidents, which the file also holds, decide no action and are left out
here.
-/

namespace ContestManagement
namespace Watchdog

open Lib

/-! ## Constants -/

def budgetWindowS : ℚ := 3600

def programBudget : ℕ := 2

def poolBudget : ℕ := 3

def fatalProgramBudget : ℕ := 2

def corruptLedgerS : ℚ := 3600

def ledgerMaxEpochS : ℚ := 4102444800

def ledgerMaxPid : ℤ := 4194304

/-! ## Bookings -/

/-- The budget pools. -/
inductive Pool
  | workers
  | services
  deriving DecidableEq

/-- The actions that are booked. -/
inductive Action
  | restart
  | start
  deriving DecidableEq

inductive Rule
  | r1
  | r2
  | r3
  | r4
  | r5
  deriving DecidableEq

/-- One action or would-action. -/
structure Booking where
  wall : ℚ
  program : String
  label : String
  pool : Pool
  action : Action
  rule : String
  would : Bool
  pid : Option ℤ
  deriving DecidableEq

def Rule.name : Rule → String
  | .r1 => "R1"
  | .r2 => "R2"
  | .r3 => "R3"
  | .r4 => "R4"
  | .r5 => "R5"

def Pool.name : Pool → String
  | .workers => "workers"
  | .services => "services"

def Action.name : Action → String
  | .restart => "restart"
  | .start => "start"

/-- `age`: zero if the clock went back. -/
def age (round : ℚ → ℚ) (now past : ℚ) : ℚ := max 0 (round (now - past))

structure Ledger where
  real : List Booking
  shadow : List Booking
  /-- The red intervals of the gate; the current one has no end. -/
  red : List (ℚ × Option ℚ)
  exhaustedUntil : Option ℚ
  deriving DecidableEq

namespace Ledger

def empty : Ledger := ⟨[], [], [], none⟩

/-- `Ledger.exhausted`. -/
def exhausted (wall : ℚ) : Ledger := { empty with exhaustedUntil := some (wall + corruptLedgerS) }

/-- One of the two ledgers. -/
def bookings (l : Ledger) (shadow : Bool) : List Booking :=
  if shadow then l.shadow else l.real

def book (l : Ledger) (booking : Booking) (shadow : Bool) : Ledger :=
  if shadow then { l with shadow := l.shadow ++ [booking] }
  else { l with real := l.real ++ [booking] }

def isRecent (round : ℚ → ℚ) (wall past : ℚ) : Bool := age round wall past < budgetWindowS

def prune (l : Ledger) (wall : ℚ) : Ledger where
  real := l.real.filter fun b => isRecent id wall b.wall
  shadow := l.shadow.filter fun b => isRecent id wall b.wall
  red := l.red.filter fun interval => match interval.2 with
    | none => true
    | some stop => isRecent id wall stop
  exhaustedUntil := l.exhaustedUntil.filter fun stop => wall < stop

def count (l : Ledger) (program : String) (action : Action) (shadow : Bool) (wall : ℚ) : ℕ :=
  ((l.bookings shadow).filter fun b =>
    b.program = program && b.action = action && isRecent id wall b.wall).length

/-- The time of the booking that has to leave before a limit allows one more. -/
def lastToLeave (bookings : List Booking) (limit : ℕ) : Option ℚ :=
  if limit ≤ bookings.length then
    let walls := (bookings.map Booking.wall).insertionSort (· ≤ ·)
    walls[walls.length - limit]?
  else none

/-- The time from which a limit allows one more booking, if it does not now. -/
def limitFreeAt (round : ℚ → ℚ) (bookings : List Booking) (limit : ℕ) : Option ℚ :=
  (lastToLeave bookings limit).map fun booked => round (booked + budgetWindowS)

/-- The later one of two times, if there is one. -/
def laterTime : Option ℚ → Option ℚ → Option ℚ
  | none, other => other
  | some time, none => some time
  | some time, some other => some (max time other)

/-- `free_at`. -/
def freeAt (round : ℚ → ℚ) (l : Ledger) (program : String) (pool : Pool) (action : Action)
    (shadow : Bool) (wall : ℚ) : Option ℚ :=
  match l.exhaustedUntil.filter fun stop => wall < stop with
  | some stop => some stop
  | none =>
      let recent := (l.bookings shadow).filter fun b =>
        b.action = action && isRecent round wall b.wall
      let ofProgram := recent.filter fun b => b.program = program
      match action with
      | .restart => laterTime (limitFreeAt round ofProgram programBudget)
          (limitFreeAt round (recent.filter fun b => b.pool = pool) poolBudget)
      | .start => limitFreeAt round ofProgram fatalProgramBudget

/-- `red_since`. -/
def redSince (l : Ledger) (wall : ℚ) : Bool :=
  l.red.any fun interval => match interval.2 with
    | none => true
    | some stop => wall < stop

/-- The times of a ledger that was read, none of them ahead of now. -/
def broughtBack (l : Ledger) (wall : ℚ) : Ledger where
  real := l.real.map fun b => { b with wall := min b.wall wall }
  shadow := l.shadow.map fun b => { b with wall := min b.wall wall }
  red := l.red.map fun interval => (min interval.1 wall, interval.2.map (min · wall))
  exhaustedUntil := l.exhaustedUntil.map (min · (wall + corruptLedgerS))

end Ledger

end Watchdog
end ContestManagement
