import ContestManagement.Lib.Json
import ContestManagement.Lib.Python
import ContestManagement.Watchdog.Ledger

/-!
# The file of the ledger

The text in which the watchdog keeps its ledger over a restart: the ledger of the budgets and the
open incidents.  `to_json` writes it, with sorted keys, and `from_json` checks every field of what
it reads, since the file may be damaged or edited.  What a check raises becomes a `LedgerError`.

`InRange` says what a file may hold.  Exactly the ledgers in range are read back
(`readLedger_toValue`, `inRange_of_readLedger`).
-/

namespace ContestManagement
namespace Watchdog

open Lib

def ledgerMaxPasses : ℤ := 1000000

/-- An open incident. -/
structure Incident where
  rule : String
  opened : ℚ
  passes : ℤ
  deriving DecidableEq

/-- `Ledger`, with the open incidents by the name of their program. -/
structure LedgerFile where
  ledger : Ledger
  incidents : Dict String Incident

namespace LedgerFile

/-! ## Writing -/

/-- An optional value, `null` if there is none. -/
def orNull {α : Type} (encode : α → Json) : Option α → Json
  | none => .null
  | some value => encode value

def bookingValue (b : Booking) : Json :=
  .dict [("action", .str b.action.name), ("label", .str b.label), ("pid", orNull .int b.pid),
    ("pool", .str b.pool.name), ("program", .str b.program), ("rule", .str b.rule),
    ("wall", .float b.wall), ("would", .bool b.would)]

def intervalValue (interval : ℚ × Option ℚ) : Json :=
  .list [.float interval.1, orNull .float interval.2]

def incidentValue (incident : Incident) : Json :=
  .dict [("opened", .float incident.opened), ("passes", .int incident.passes),
    ("rule", .str incident.rule)]

/-- The incidents in the order of their keys. -/
def sortedIncidents (incidents : Dict String Incident) : List (String × Incident) :=
  incidents.items.insertionSort fun a b => a.1 ≤ b.1

/-- What `to_json` hands to the JSON library, with sorted keys. -/
def toValue (f : LedgerFile) : Json :=
  .dict [("exhausted_until", orNull .float f.ledger.exhaustedUntil),
    ("incidents", .dict ((sortedIncidents f.incidents).map fun item =>
      (item.1, incidentValue item.2))),
    ("real", .list (f.ledger.real.map bookingValue)),
    ("red", .list (f.ledger.red.map intervalValue)),
    ("shadow", .list (f.ledger.shadow.map bookingValue))]

/-- `to_json`; no time of a ledger is infinite or not a number. -/
def toJson (lib : JsonLibrary) (f : LedgerFile) : String := lib.dumps f.toValue

/-! ## Reading -/

/-- The exceptions that reading a ledger can meet. -/
inductive Exc where
  | valueError (message : String)
  /-- A `ValueError` with a text that ends in the value it is about. -/
  | badValue (message : String) (value : Json)
  | keyError (key : String)
  | recursionError (message : String)
  | ledgerError (message : String)
  | other (message : String)

section Readers

/-- `_shape(value, dict)`. -/
def shapeDict : Json → Except Exc (List (String × Json))
  | .dict items => .ok items
  | value => .error (.badValue "expected a dict, got " value)

/-- `_shape(value, list)`. -/
def shapeList : Json → Except Exc (List Json)
  | .list values => .ok values
  | value => .error (.badValue "expected a list, got " value)

/-- `item[key]`. -/
def getItem (items : List (String × Json)) (key : String) : Except Exc Json :=
  match items.lookup key with
  | some value => .ok value
  | none => .error (.keyError key)

/-- `is_number`: an integer too large for a float is out of every range here. -/
def isNumber? : Json → Option ℚ
  | .int i => some i
  | .float q => some q
  | _ => none

def epoch (value : Json) : Except Exc ℚ :=
  match (isNumber? value).filter fun time => 0 ≤ time ∧ time ≤ ledgerMaxEpochS with
  | some time => .ok time
  | none => .error (.badValue "not a time: " value)

def integer (value : Json) (low high : ℤ) : Except Exc ℤ :=
  match value with
  | .int i =>
      if low ≤ i ∧ i ≤ high then .ok i
      else .error (.badValue s!"not an integer from {low} to {high}: " value)
  | value => .error (.badValue s!"not an integer from {low} to {high}: " value)

def text : Json → Except Exc String
  | .str s => .ok s
  | value => .error (.badValue "not a valid string: " value)

/-- `_text` of one of some names. -/
def textOf {α : Type} (named : List (String × α)) (value : Json) : Except Exc α :=
  match value with
  | .str s =>
      match named.lookup s with
      | some a => .ok a
      | none => .error (.badValue "not a valid string: " value)
  | value => .error (.badValue "not a valid string: " value)

def flag : Json → Except Exc Bool
  | .bool b => .ok b
  | value => .error (.badValue "not a boolean: " value)

/-- `None` for a missing value, or what is read from it. -/
def orNone {α : Type} (read : Json → Except Exc α) : Json → Except Exc (Option α)
  | .null => .ok none
  | value => some <$> read value

def pools : List (String × Pool) :=
  [(Pool.workers.name, .workers), (Pool.services.name, .services)]

def actions : List (String × Action) :=
  [(Action.restart.name, .restart), (Action.start.name, .start)]

/-- `_booking`; a process id that is not there counts as `None`. -/
def booking (item : Json) : Except Exc Booking := do
  let items ← shapeDict item
  let pid := (items.lookup "pid").getD .null
  let wall ← getItem items "wall" >>= epoch
  let program ← getItem items "program" >>= text
  let label ← getItem items "label" >>= text
  let pool ← getItem items "pool" >>= textOf pools
  let action ← getItem items "action" >>= textOf actions
  let rule ← getItem items "rule" >>= text
  let would ← getItem items "would" >>= flag
  let pid ← orNone (fun value => integer value 1 ledgerMaxPid) pid
  return ⟨wall, program, label, pool, action, rule, would, pid⟩

/-- `_interval`. -/
def interval (item : Json) : Except Exc (ℚ × Option ℚ) := do
  let values ← shapeList item
  match values with
  | [start, stop] => do
      let start ← epoch start
      let stop ← orNone epoch stop
      return (start, stop)
  | values =>
      if values.length < 2 then
        throw (.valueError s!"not enough values to unpack (expected 2, got {values.length})")
      else throw (.valueError "too many values to unpack (expected 2)")

/-- `_incident`. -/
def incident (item : Json) : Except Exc Incident := do
  let items ← shapeDict item
  let rule ← getItem items "rule" >>= text
  let opened ← getItem items "opened" >>= epoch
  let passes ← getItem items "passes" >>= fun value => integer value 0 ledgerMaxPasses
  return ⟨rule, opened, passes⟩

/-- The ledger of a decoded text. -/
def readLedger (value : Json) : Except Exc LedgerFile := do
  let data ← shapeDict value
  let exhaustedUntil ← getItem data "exhausted_until"
  let real ← getItem data "real" >>= shapeList
  let real ← real.mapM booking
  let shadow ← getItem data "shadow" >>= shapeList
  let shadow ← shadow.mapM booking
  let red ← getItem data "red" >>= shapeList
  let red ← red.mapM interval
  let incidents ← getItem data "incidents" >>= shapeDict
  let incidents ← incidents.mapM fun item => do
    let read ← incident item.2
    return (item.1, read)
  let exhaustedUntil ← orNone epoch exhaustedUntil
  return ⟨⟨real, shadow, red, exhaustedUntil⟩,
    incidents.foldl (fun d item => d.set item.1 item.2) Dict.empty⟩

/-- What the JSON library raises. -/
def ofJsonError : JsonError → Exc
  | .valueError message => .valueError message
  | .recursionError message => .recursionError message
  | .other message => .other message

/-- `str(error)`, for the exceptions that `from_json` catches. -/
def caught? (repr : Json → String) : Exc → Option String
  | .valueError message => some message
  | .badValue message value => some (message ++ repr value)
  | .keyError key => some ("'" ++ key ++ "'")
  | .recursionError message => some message
  | .ledgerError message => some message
  | .other _ => none

/-- `from_json`. -/
def fromJson (repr : Json → String) (lib : JsonLibrary) (text : String) : Except Exc LedgerFile :=
  let result := match lib.loads text with
    | .ok value => readLedger value
    | .error e => .error (ofJsonError e)
  match result with
  | .ok f => .ok f
  | .error e =>
      match caught? repr e with
      | some message => .error (.ledgerError ("not a watchdog ledger: " ++ message))
      | none => .error e

end Readers

/-! ## What a file may hold -/

def TimeInRange (time : ℚ) : Prop := 0 ≤ time ∧ time ≤ ledgerMaxEpochS

def PidInRange (pid : ℤ) : Prop := 1 ≤ pid ∧ pid ≤ ledgerMaxPid

/-- A booking that a file may hold. -/
structure BookingInRange (b : Booking) : Prop where
  wall : TimeInRange b.wall
  pid : ∀ pid, b.pid = some pid → PidInRange pid

/-- A red interval that a file may hold. -/
structure IntervalInRange (interval : ℚ × Option ℚ) : Prop where
  start : TimeInRange interval.1
  stop : ∀ stop, interval.2 = some stop → TimeInRange stop

structure IncidentInRange (incident : Incident) : Prop where
  opened : TimeInRange incident.opened
  passes : 0 ≤ incident.passes ∧ incident.passes ≤ ledgerMaxPasses

/-- What a file may hold of the ledger of the budgets. -/
structure LedgerInRange (l : Ledger) : Prop where
  bookings : ∀ shadow, ∀ b ∈ l.bookings shadow, BookingInRange b
  red : ∀ interval ∈ l.red, IntervalInRange interval
  exhausted : ∀ stop, l.exhaustedUntil = some stop → TimeInRange stop

def IncidentsInRange (incidents : Dict String Incident) : Prop :=
  ∀ name incident, incidents.get? name = some incident → IncidentInRange incident

/-- A ledger that a file may hold. -/
structure InRange (f : LedgerFile) : Prop where
  ledger : LedgerInRange f.ledger
  incidents : IncidentsInRange f.incidents

/-- Equal ledgers: the order of the incidents makes no difference. -/
structure Same (f g : LedgerFile) : Prop where
  ledger : f.ledger = g.ledger
  incidents : ∀ name, f.incidents.get? name = g.incidents.get? name

/-! ## What is read is in range -/

section Reading

variable {value : Json}

theorem timeInRange_of_epoch {time : ℚ} (h : epoch value = .ok time) : TimeInRange time := by
  unfold epoch at h
  split at h
  case h_1 time' hfilter =>
    have hrange := (Option.filter_eq_some_iff.1 hfilter).2
    rw [Except.ok.injEq] at h
    subst h
    simpa [TimeInRange] using hrange
  case h_2 => cases h

theorem of_integer {low high i : ℤ} (h : integer value low high = .ok i) :
    low ≤ i ∧ i ≤ high := by
  unfold integer at h
  split at h
  case h_1 j =>
    split at h
    case isTrue hrange =>
      rw [Except.ok.injEq] at h
      exact h ▸ hrange
    case isFalse => cases h
  case h_2 => cases h

theorem of_orNone {α : Type} {read : Json → Except Exc α} {result : Option α} {a : α}
    (h : orNone read value = .ok result) (ha : result = some a) : ∃ value', read value' = .ok a := by
  subst ha
  unfold orNone at h
  split at h
  case h_1 => cases h
  case h_2 =>
    cases hread : read value with
    | error e =>
        rw [hread] at h
        cases h
    | ok a' =>
        rw [hread] at h
        cases h
        exact ⟨value, hread⟩

theorem inRange_of_booking {b : Booking} (h : booking value = .ok b) : BookingInRange b := by
  unfold booking at h
  simp only [bind_eq_ok_iff] at h
  obtain ⟨items, -, wall, ⟨_, -, hwall⟩, program, -, label, -, pool, -, action, -, rule, -, would, -,
    pid, hpid, hb⟩ := h
  cases hb
  refine ⟨timeInRange_of_epoch hwall, fun pid' hpid' => ?_⟩
  obtain ⟨value', hread⟩ := of_orNone hpid hpid'
  exact of_integer hread

theorem inRange_of_interval {red : ℚ × Option ℚ} (h : interval value = .ok red) :
    IntervalInRange red := by
  unfold interval at h
  rw [bind_eq_ok_iff] at h
  obtain ⟨values, -, h⟩ := h
  split at h
  case h_1 start stop =>
    simp only [bind_eq_ok_iff] at h
    obtain ⟨first, hfirst, last, hlast, hred⟩ := h
    cases hred
    refine ⟨timeInRange_of_epoch hfirst, fun stop' hstop' => ?_⟩
    obtain ⟨value', hread⟩ := of_orNone hlast hstop'
    exact timeInRange_of_epoch hread
  case h_2 =>
    split at h
    case isTrue => cases h
    case isFalse => cases h

theorem inRange_of_incident {i : Incident} (h : incident value = .ok i) :
    IncidentInRange i := by
  unfold incident at h
  simp only [bind_eq_ok_iff] at h
  obtain ⟨items, -, rule, -, opened, ⟨_, -, hopened⟩, passes, ⟨_, -, hpasses⟩, hi⟩ := h
  cases hi
  exact ⟨timeInRange_of_epoch hopened, of_integer hpasses⟩

theorem mem_foldl_set {β : Type} {items : List (String × β)} {d : Dict String β} {key : String}
    {b : β} (h : (items.foldl (fun d item => d.set item.1 item.2) d).get? key = some b) :
    (key, b) ∈ items ∨ d.get? key = some b := by
  induction items generalizing d with
  | nil => exact Or.inr h
  | cons item rest ih =>
      rw [List.foldl_cons] at h
      rcases ih h with hrest | hset
      · exact Or.inl (List.mem_cons_of_mem item hrest)
      · rw [Dict.get?_set] at hset
        split at hset
        case isTrue heq =>
          rw [Option.some.injEq] at hset
          exact Or.inl (by rw [heq, ← hset]; exact List.mem_cons_self)
        case isFalse => exact Or.inr hset

theorem inRange_of_readLedger {f : LedgerFile} (h : readLedger value = .ok f) : f.InRange := by
  unfold readLedger at h
  simp only [bind_eq_ok_iff] at h
  obtain ⟨data, -, stopValue, -, _, ⟨_, -, -⟩, real, hreal, _, ⟨_, -, -⟩, shadow, hshadow, _,
    ⟨_, -, -⟩, red, hred, _, ⟨_, -, -⟩, incidents, hincidents, stop, hstop, hf⟩ := h
  cases hf
  refine ⟨⟨fun which b hb => ?_, fun interval hinterval => ?_, fun stop' hstop' => ?_⟩,
    fun name incident hincident => ?_⟩
  · have hread : ∃ item, booking item = .ok b := by
      cases which with
      | false =>
          obtain ⟨item, -, hitem⟩ := exists_of_mem_mapM hreal hb
          exact ⟨item, hitem⟩
      | true =>
          obtain ⟨item, -, hitem⟩ := exists_of_mem_mapM hshadow hb
          exact ⟨item, hitem⟩
    obtain ⟨item, hitem⟩ := hread
    exact inRange_of_booking hitem
  · obtain ⟨item, -, hitem⟩ := exists_of_mem_mapM hred hinterval
    exact inRange_of_interval hitem
  · obtain ⟨value', hread⟩ := of_orNone hstop hstop'
    exact timeInRange_of_epoch hread
  · rcases mem_foldl_set hincident with hmem | hempty
    · obtain ⟨item, -, hitem⟩ := exists_of_mem_mapM hincidents hmem
      rw [bind_eq_ok_iff] at hitem
      obtain ⟨read, hread, hpair⟩ := hitem
      cases hpair
      exact inRange_of_incident hread
    · rw [Dict.get?_empty] at hempty
      cases hempty

end Reading

/-! ## What a reader raises -/

/-- A computation raises nothing that `from_json` lets pass. -/
def Caught {α : Type} (x : Except Exc α) : Prop :=
  ∀ message, x ≠ .error (.other message)

section Raising

variable {α β : Type}

theorem Caught.ok (a : α) : Caught (.ok a) := fun _ h => by cases h

theorem Caught.valueError (message : String) : Caught (.error (.valueError message) : Except Exc α) :=
  fun _ h => by cases h

theorem Caught.badValue (message : String) (value : Json) :
    Caught (.error (.badValue message value) : Except Exc α) :=
  fun _ h => by cases h

theorem Caught.bind {x : Except Exc α} {f : α → Except Exc β} (hx : Caught x)
    (hf : ∀ a, Caught (f a)) : Caught (x >>= f) := by
  intro message h
  cases x with
  | error e => exact hx message (by rw [Except.error.injEq]; exact Except.error.inj h)
  | ok a => exact hf a message h

theorem Caught.mapM {f : α → Except Exc β} (hf : ∀ a, Caught (f a)) (values : List α) :
    Caught (values.mapM f) := by
  induction values with
  | nil => exact Caught.ok []
  | cons a rest ih =>
      rw [List.mapM_cons]
      exact (hf a).bind fun b => ih.bind fun more => Caught.ok (b :: more)

theorem caught_shapeDict (value : Json) : Caught (shapeDict value) := by
  unfold shapeDict
  split
  case h_1 => exact Caught.ok _
  case h_2 => exact Caught.badValue _ _

theorem caught_shapeList (value : Json) : Caught (shapeList value) := by
  unfold shapeList
  split
  case h_1 => exact Caught.ok _
  case h_2 => exact Caught.badValue _ _

theorem caught_getItem (items : List (String × Json)) (key : String) :
    Caught (getItem items key) := by
  unfold getItem
  split
  case h_1 => exact Caught.ok _
  case h_2 => exact fun _ h => by cases h

theorem caught_epoch (value : Json) : Caught (epoch value) := by
  unfold epoch
  split
  case h_1 => exact Caught.ok _
  case h_2 => exact Caught.badValue _ _

theorem caught_integer (value : Json) (low high : ℤ) : Caught (integer value low high) := by
  unfold integer
  split
  case h_1 =>
    split
    case isTrue => exact Caught.ok _
    case isFalse => exact Caught.badValue _ _
  case h_2 => exact Caught.badValue _ _

theorem caught_text (value : Json) : Caught (text value) := by
  unfold text
  split
  case h_1 => exact Caught.ok _
  case h_2 => exact Caught.badValue _ _

theorem caught_textOf (named : List (String × α)) (value : Json) :
    Caught (textOf named value) := by
  unfold textOf
  split
  case h_1 =>
    split
    case h_1 => exact Caught.ok _
    case h_2 => exact Caught.badValue _ _
  case h_2 => exact Caught.badValue _ _

theorem caught_flag (value : Json) : Caught (flag value) := by
  unfold flag
  split
  case h_1 => exact Caught.ok _
  case h_2 => exact Caught.badValue _ _

theorem caught_orNone {read : Json → Except Exc α} (hread : ∀ value, Caught (read value))
    (value : Json) : Caught (orNone read value) := by
  unfold orNone
  split
  case h_1 => exact Caught.ok _
  case h_2 => exact (hread value).bind fun a => Caught.ok (some a)

/-- A field that is read. -/
theorem caught_field (items : List (String × Json)) (key : String) {read : Json → Except Exc α}
    (hread : ∀ value, Caught (read value)) : Caught (getItem items key >>= read) :=
  (caught_getItem items key).bind hread

theorem caught_booking (item : Json) : Caught (booking item) :=
  (caught_shapeDict item).bind fun items =>
    (caught_field items "wall" caught_epoch).bind fun _ =>
      (caught_field items "program" caught_text).bind fun _ =>
        (caught_field items "label" caught_text).bind fun _ =>
          (caught_field items "pool" (caught_textOf pools)).bind fun _ =>
            (caught_field items "action" (caught_textOf actions)).bind fun _ =>
              (caught_field items "rule" caught_text).bind fun _ =>
                (caught_field items "would" caught_flag).bind fun _ =>
                  (caught_orNone (fun value => caught_integer value 1 ledgerMaxPid) _).bind fun _ =>
                    Caught.ok _

theorem caught_interval (item : Json) : Caught (interval item) := by
  refine (caught_shapeList item).bind fun values => ?_
  split
  case h_1 start stop =>
    exact (caught_epoch start).bind fun _ =>
      (caught_orNone caught_epoch stop).bind fun _ => Caught.ok _
  case h_2 =>
    split
    case isTrue => exact Caught.valueError _
    case isFalse => exact Caught.valueError _

theorem caught_incident (item : Json) : Caught (incident item) :=
  (caught_shapeDict item).bind fun items =>
    (caught_field items "rule" caught_text).bind fun _ =>
      (caught_field items "opened" caught_epoch).bind fun _ =>
        (caught_field items "passes" fun value => caught_integer value 0 ledgerMaxPasses).bind
          fun _ => Caught.ok _

theorem caught_readLedger (value : Json) : Caught (readLedger value) :=
  (caught_shapeDict value).bind fun data =>
    (caught_getItem data "exhausted_until").bind fun stop =>
      (caught_field data "real" caught_shapeList).bind fun real =>
        (Caught.mapM caught_booking real).bind fun _ =>
          (caught_field data "shadow" caught_shapeList).bind fun shadow =>
            (Caught.mapM caught_booking shadow).bind fun _ =>
              (caught_field data "red" caught_shapeList).bind fun red =>
                (Caught.mapM caught_interval red).bind fun _ =>
                  (caught_field data "incidents" caught_shapeDict).bind fun incidents =>
                    (Caught.mapM (fun item => (caught_incident item.2).bind fun _ => Caught.ok _)
                      incidents).bind fun _ =>
                        (caught_orNone caught_epoch stop).bind fun _ => Caught.ok _

/-- With a library as it is documented `from_json` raises `LedgerError` and nothing else. -/
theorem ledgerError_of_fromJson {repr : Json → String} {lib : JsonLibrary} (hlib : lib.Documented)
    {text : String} {e : Exc} (h : fromJson repr lib text = .error e) :
    ∃ message, e = .ledgerError message := by
  -- What is raised inside is caught.
  have hcaught : Caught (match lib.loads text with
      | .ok value => readLedger value
      | .error e => .error (ofJsonError e)) := by
    cases hloads : lib.loads text with
    | ok value => exact caught_readLedger value
    | error error =>
      intro message hother
      cases error with
      | valueError _ => cases hother
      | recursionError _ => cases hother
      | other other => exact hlib text other hloads
  unfold fromJson at h
  dsimp only at h
  split at h
  case h_1 => cases h
  case h_2 error herror =>
    split at h
    case h_1 message =>
      rw [Except.error.injEq] at h
      exact ⟨_, h.symm⟩
    case h_2 hnone =>
      cases error with
      | other message => exact absurd herror (hcaught message)
      | _ => simp [caught?] at hnone

end Raising

/-! ## What is in range is read back -/

section Writing

@[simp] theorem getItem_cons (key other : String) (value : Json) (rest : List (String × Json)) :
    getItem ((other, value) :: rest) key = if key = other then .ok value else getItem rest key := by
  unfold getItem
  rw [Dict.lookup_item]
  by_cases hkey : key = other
  · simp [hkey]
  · simp [hkey]

theorem epoch_float {time : ℚ} (h : TimeInRange time) : epoch (.float time) = .ok time := by
  have hfilter : ((isNumber? (.float time)).filter fun time => 0 ≤ time ∧ time ≤ ledgerMaxEpochS) =
      some time := by
    rw [isNumber?, Option.filter_some, if_pos (by simpa [TimeInRange] using h)]
  unfold epoch
  rw [hfilter]

theorem integer_int {low high i : ℤ} (h : low ≤ i ∧ i ≤ high) :
    integer (.int i) low high = .ok i :=
  if_pos h

theorem orNone_orNull {α : Type} {encode : α → Json} {read : Json → Except Exc α} {result : Option α}
    (hencode : ∀ a, encode a ≠ .null) (h : ∀ a, result = some a → read (encode a) = .ok a) :
    orNone read (orNull encode result) = .ok result := by
  cases result with
  | none => rfl
  | some a =>
      rw [orNull, orNone]
      · rw [h a rfl]
        rfl
      · exact hencode a

theorem pool_name (pool : Pool) : textOf pools (.str pool.name) = .ok pool := by
  cases pool <;> rfl

theorem action_name (action : Action) : textOf actions (.str action.name) = .ok action := by
  cases action <;> rfl

theorem booking_bookingValue {b : Booking} (h : BookingInRange b) :
    booking (bookingValue b) = .ok b := by
  have hpid : orNone (fun value => integer value 1 ledgerMaxPid) (orNull .int b.pid) =
      .ok b.pid :=
    orNone_orNull (by simp) fun pid hpid => integer_int (h.pid pid hpid)
  simp [booking, bookingValue, shapeDict, text, flag, epoch_float h.wall, pool_name, action_name,
    Dict.lookup_item, hpid, bind, Except.bind, pure, Except.pure]

theorem interval_intervalValue {red : ℚ × Option ℚ} (h : IntervalInRange red) :
    interval (intervalValue red) = .ok red := by
  have hstop : orNone epoch (orNull .float red.2) = .ok red.2 :=
    orNone_orNull (by simp) fun stop hstop => epoch_float (h.stop stop hstop)
  simp [interval, intervalValue, shapeList, epoch_float h.start, hstop, bind, Except.bind, pure,
    Except.pure]

theorem incident_incidentValue {i : Incident} (h : IncidentInRange i) :
    incident (incidentValue i) = .ok i := by
  simp [incident, incidentValue, shapeDict, text, epoch_float h.opened,
    integer_int h.passes, bind, Except.bind, pure, Except.pure]

theorem mapM_encode {α : Type} {encode : α → Json} {read : Json → Except Exc α} {values : List α}
    (h : ∀ a ∈ values, read (encode a) = .ok a) : (values.map encode).mapM read = .ok values := by
  rw [mapM_eq_ok_iff, List.forall₂_map_left_iff, List.forall₂_same]
  exact h

theorem readLedger_toValue {f : LedgerFile} (h : f.InRange) :
    ∃ g, readLedger f.toValue = .ok g ∧ g.Same f := by
  have hreal : (f.ledger.real.map bookingValue).mapM booking = .ok f.ledger.real :=
    mapM_encode fun b hb => booking_bookingValue (h.ledger.bookings false b hb)
  have hshadow : (f.ledger.shadow.map bookingValue).mapM booking = .ok f.ledger.shadow :=
    mapM_encode fun b hb => booking_bookingValue (h.ledger.bookings true b hb)
  have hred : (f.ledger.red.map intervalValue).mapM interval = .ok f.ledger.red :=
    mapM_encode fun red hmem => interval_intervalValue (h.ledger.red red hmem)
  have hstop : orNone epoch (orNull .float f.ledger.exhaustedUntil) =
      .ok f.ledger.exhaustedUntil :=
    orNone_orNull (by simp) fun stop hstop => epoch_float (h.ledger.exhausted stop hstop)
  have hperm : (sortedIncidents f.incidents).Perm f.incidents.items :=
    List.perm_insertionSort _ _
  have hincidents : ((sortedIncidents f.incidents).map fun item =>
      (item.1, incidentValue item.2)).mapM (fun item : String × Json => do
        let read ← incident item.2
        return (item.1, read)) = .ok (sortedIncidents f.incidents) := by
    rw [mapM_eq_ok_iff, List.forall₂_map_left_iff, List.forall₂_same]
    intro item hitem
    have hrange := h.incidents item.1 item.2
      (Dict.mem_items_iff.1 (hperm.mem_iff.1 hitem))
    dsimp only
    rw [incident_incidentValue hrange]
    rfl
  refine ⟨⟨f.ledger, (sortedIncidents f.incidents).foldl
    (fun d item => d.set item.1 item.2) Dict.empty⟩, ?_, rfl, fun name => ?_⟩
  · simp only [readLedger, toValue, shapeDict, shapeList, getItem_cons, String.reduceEq, if_false,
      if_true, ok_bind, hreal, hshadow, hred, hincidents, hstop]
    rfl
  · have hnodup : ((sortedIncidents f.incidents).map Prod.fst).Nodup :=
      (hperm.map Prod.fst).nodup_iff.2 f.incidents.distinct
    have hset := Dict.get?_update Dict.empty ⟨sortedIncidents f.incidents, hnodup⟩ name
    rw [Dict.get?_empty, Option.or_none] at hset
    refine hset.trans (Option.ext fun incident => ?_)
    rw [← Dict.mem_items_iff, hperm.mem_iff, Dict.mem_items_iff]

end Writing

/-! ## What is read is what was written -/

section Written

theorem eq_of_epoch_float {time time' : ℚ} (h : epoch (.float time) = .ok time') :
    time' = time := by
  unfold epoch at h
  split at h
  case h_1 read hfilter =>
    have hsome := (Option.filter_eq_some_iff.1 hfilter).1
    rw [isNumber?, Option.some.injEq] at hsome
    rw [Except.ok.injEq] at h
    rw [← h, hsome]
  case h_2 => cases h

theorem eq_of_integer_int {low high i j : ℤ} (h : integer (.int i) low high = .ok j) : j = i := by
  unfold integer at h
  dsimp only at h
  split at h
  case isTrue =>
    rw [Except.ok.injEq] at h
    exact h.symm
  case isFalse => cases h

theorem eq_of_orNone_orNull {α : Type} {encode : α → Json} {read : Json → Except Exc α}
    {written result : Option α} (hencode : ∀ a, encode a ≠ .null)
    (h : ∀ a b, read (encode a) = .ok b → b = a)
    (hread : orNone read (orNull encode written) = .ok result) : result = written := by
  cases written with
  | none =>
      rw [orNull, orNone, Except.ok.injEq] at hread
      exact hread.symm
  | some a =>
      rw [orNull, orNone] at hread
      · cases hvalue : read (encode a) with
        | error e =>
            rw [hvalue] at hread
            cases hread
        | ok b =>
            rw [hvalue] at hread
            cases hread
            rw [h a b hvalue]
      · exact hencode a

theorem eq_of_mapM_encode {α : Type} {encode : α → Json} {read : Json → Except Exc α}
    (h : ∀ a b, read (encode a) = .ok b → b = a) {written result : List α}
    (hread : (written.map encode).mapM read = .ok result) : result = written := by
  rw [mapM_eq_ok_iff, List.forall₂_map_left_iff] at hread
  have heq : List.Forall₂ Eq written result := hread.imp fun a b hb => (h a b hb).symm
  rw [List.forall₂_eq_eq_eq] at heq
  exact heq.symm

theorem eq_of_booking_bookingValue (b b' : Booking) (h : booking (bookingValue b) = .ok b') :
    b' = b := by
  simp only [booking, bookingValue, shapeDict, getItem_cons, String.reduceEq, if_false, if_true,
    ok_bind, bind_eq_ok_iff, text, flag, pool_name, action_name, Dict.lookup_item,
    Option.getD_some] at h
  obtain ⟨wall, hwall, pid, hpid, hb⟩ := h
  cases hb
  rw [eq_of_epoch_float hwall, eq_of_orNone_orNull (by simp) (fun _ _ => eq_of_integer_int) hpid]

theorem eq_of_interval_intervalValue (red red' : ℚ × Option ℚ)
    (h : interval (intervalValue red) = .ok red') : red' = red := by
  simp only [interval, intervalValue, shapeList, ok_bind, bind_eq_ok_iff] at h
  obtain ⟨start, hstart, stop, hstop, hred⟩ := h
  cases hred
  rw [eq_of_epoch_float hstart,
    eq_of_orNone_orNull (by simp) (fun _ _ => eq_of_epoch_float) hstop]

/-- If the text of a ledger can be read, the ledger that is read is the one that was written. -/
theorem ledger_of_readLedger_toValue {f g : LedgerFile} (h : readLedger f.toValue = .ok g) :
    g.ledger = f.ledger := by
  simp only [readLedger, toValue, shapeDict, shapeList, getItem_cons, String.reduceEq, if_false,
    if_true, ok_bind, bind_eq_ok_iff] at h
  obtain ⟨real, hreal, shadow, hshadow, red, hred, _, -, stop, hstop, hg⟩ := h
  cases hg
  rw [eq_of_mapM_encode eq_of_booking_bookingValue hreal,
    eq_of_mapM_encode eq_of_booking_bookingValue hshadow,
    eq_of_mapM_encode eq_of_interval_intervalValue hred,
    eq_of_orNone_orNull (by simp) (fun _ _ => eq_of_epoch_float) hstop]

end Written

end LedgerFile

namespace Ledger

/-- What the runs of the budgets write: the open incidents are left out. -/
def file (l : Ledger) : LedgerFile := ⟨l, Dict.empty⟩

/-- `load_ledger` of a file that is there; nothing stands for one that cannot be read. -/
def load (file : Option Json) (wall : ℚ) : Ledger :=
  match file.map LedgerFile.readLedger with
  | some (.ok f) => f.ledger.broughtBack wall
  | _ => exhausted wall

/-- A file that was written is read back, with no time ahead of now, or it exhausts the budgets. -/
theorem load_cases (f : LedgerFile) (readable : Bool) (wall : ℚ) :
    load (if readable then some f.toValue else none) wall = f.ledger.broughtBack wall ∨
      load (if readable then some f.toValue else none) wall = exhausted wall := by
  cases readable with
  | false => exact Or.inr rfl
  | true =>
      cases hread : LedgerFile.readLedger f.toValue with
      | error e =>
          right
          simp [load, hread]
      | ok g =>
          left
          simp [load, hread, LedgerFile.ledger_of_readLedger_toValue hread]

end Ledger

end Watchdog
end ContestManagement
