import ContestManagement.Watchdog.LedgerFile
import ContestManagement.Watchdog.Budgets

/-!
# The incidents, and what the file of a run holds

A cycle opens an incident for each program that trips a rule or waits for a start, and closes it
when the program has passed its checks twice.  The incidents decide no action: `cycleFile` adds them
to `decide`.

A run of `fileMachine` is made of cycles and of starts of the watchdog, which reads its ledger from
any text or finds none.  In a run with times and process ids that a file may hold, the ledger can
always be read back.
-/

namespace ContestManagement
namespace Watchdog

open Lib

def passesToResolve : ℤ := 2

namespace PolicyState

variable (s : PolicyState) (o : Observation) (mono wall : ℚ)

/-- The programs whose own probe failed in a cycle, or that R4 tripped. -/
def failing : List String :=
  ((o.running.filter fun p => (livenessRule p.kind).isSome && o.missedNow p).map Program.name) ++
    (workerTrips o wall).map fun trip => trip.program.name

/-- A send that is stuck while a ranking does not answer, or none is probed. -/
def sendUnjudged (p : Program) : Bool :=
  p.kind = .proxyService &&
    lastsLonger (busySections (o.health.get? p.name)) "send" Section.idleS sectionTripS &&
    !(!o.rankings.items.isEmpty && o.rankings.items.all fun item => item.2.ok)

/-- The workers that R4 cannot judge in a cycle. -/
def workersUnjudged : List Program :=
  let workers := o.running.filter fun p => p.kind = .worker
  match o.running.find? fun p => p.kind = .evaluationService with
  | none => workers
  | some es =>
      let answered := match o.rpc.get? es.name with
        | some probe => probe.ok
        | none => false
      let esUptime := ((o.health.get? es.name).bind (·.get? "uptime_s")).bind isNumber?
      let young := match esUptime with
        | some uptime => uptime < esUpForWorkersS
        | none => false
      if answered = false ∨ young = true then workers
      else
        let statuses := workerStatuses o
        workers.filter fun p =>
          match statuses.lookup (toString p.shard) with
          | none => true
          | some status =>
              !(disabledTooLong wall p status || neverConnected wall p status statuses esUptime) &&
                (!(status.get? "connected" matches some (.bool true)) ||
                  status.get? "disabled_by_timeout" matches some (.bool true))

/-- The programs that a rule could not judge in a cycle. -/
def unjudged : List String :=
  ((o.running.filter (sendUnjudged o)) ++ workersUnjudged o wall).map Program.name

/-- Open an incident, unless the program has one. -/
def openIncident (incidents : Dict String Incident) (name : String) (rule : Rule) :
    Dict String Incident :=
  if (incidents.get? name).isNone then incidents.set name ⟨rule.name, wall, 0⟩ else incidents

/-- `_fatal_starts`: an incident for each program that it would start, held or not. -/
def startIncidents (incidents : Dict String Incident) : Dict String Incident :=
  if o.gate.isGreen = false ∨ s.greenCycles < fatalGreenCycles then incidents
  else (s.eligible o).foldl (fun incidents p => openIncident wall incidents p.name .r5) incidents

/-- `_act_on_trips`: an incident for each trip, held or not. -/
def tripIncidents (allTrips : List Trip) (incidents : Dict String Incident) :
    Dict String Incident :=
  allTrips.foldl (fun incidents trip => openIncident wall incidents trip.program.name trip.rule)
    incidents

/-- Whether a program is running, managed or not. -/
def isRunning (name : String) : Bool :=
  match o.programs.find? fun facts => facts.name = name with
  | some facts => facts.state = .running
  | none => false

/-- What a cycle does to one open incident. -/
def updateIncident (missed unknown : List String) (incidents : Dict String Incident)
    (item : String × Incident) : Dict String Incident :=
  if isRunning o item.1 = false then incidents
  else if item.1 ∈ missed then incidents.set item.1 { item.2 with passes := 0 }
  else if item.1 ∈ unknown then incidents
  else if passesToResolve ≤ item.2.passes + 1 then incidents.erase item.1
  else incidents.set item.1 { item.2 with passes := item.2.passes + 1 }

/-- `_update_incidents`. -/
def updateIncidents (missed unknown : List String) (incidents : Dict String Incident) :
    Dict String Incident :=
  incidents.items.foldl (updateIncident o missed unknown) incidents

/-- The incidents after a cycle. -/
def incidentsAfter (incidents : Dict String Incident) : Dict String Incident :=
  let t := s.tracked o mono wall
  if o.starved then incidents
  else
    let allTrips := t.trips o mono wall
    let opened := tripIncidents wall allTrips (t.startIncidents o wall incidents)
    updateIncidents o (allTrips.map (·.program.name) ++ failing o wall) (unjudged o wall) opened

end PolicyState

/-- What a watchdog knows. -/
structure Watch where
  state : PolicyState
  incidents : Dict String Incident

namespace Watch

/-- What `to_json` writes. -/
def file (w : Watch) : LedgerFile := ⟨w.state.ledger, w.incidents⟩

/-- One call of `decide`, with the incidents. -/
def cycleFile (w : Watch) (o : Observation) (mono wall : ℚ) : Watch where
  state := (decide w.state o mono wall).1
  incidents := w.state.incidentsAfter o mono wall w.incidents

end Watch

/-- The times of a ledger that was read, none of them ahead of now. -/
def LedgerFile.broughtBack (f : LedgerFile) (wall : ℚ) : LedgerFile where
  ledger := f.ledger.broughtBack wall
  incidents := f.incidents.mapValues fun incident =>
    { incident with opened := min incident.opened wall }

/-- `load_ledger`; without a text there is no file. -/
def LedgerFile.load (repr : Json → String) (lib : JsonLibrary) (text : Option String) (wall : ℚ) :
    LedgerFile :=
  match text with
  | none => ⟨Ledger.empty, Dict.empty⟩
  | some text =>
      match LedgerFile.fromJson repr lib text with
      | .ok f => f.broughtBack wall
      | .error _ => ⟨Ledger.exhausted wall, Dict.empty⟩

inductive WatchLabel
  | cycle (observation : Observation) (mono wall : ℚ)
  /-- The watchdog starts. -/
  | start (text : Option String) (wall : ℚ)

/-- The watchdog, with the ledger that it reads when it starts. -/
def fileMachine (repr : Json → String) (lib : JsonLibrary) (mode : Mode)
    (restartClasses : List Klass) : Machine Watch WatchLabel where
  init w := w = ⟨PolicyState.new mode restartClasses Ledger.empty, Dict.empty⟩
  step w
    | .cycle o mono wall => some (w.cycleFile o mono wall)
    | .start text wall =>
        let f := LedgerFile.load repr lib text wall
        some ⟨PolicyState.new mode restartClasses f.ledger, f.incidents⟩

/-- The clock and the process ids are those that a file may hold. -/
def SaneStep (_ : Watch) : WatchLabel → Prop
  | .cycle o _ wall => LedgerFile.TimeInRange wall ∧
      ∀ p ∈ o.running, ∀ pid, p.pid = some pid → LedgerFile.PidInRange pid
  | .start _ wall => LedgerFile.TimeInRange wall ∧ LedgerFile.TimeInRange (wall + corruptLedgerS)

/-! ## The incidents of a cycle -/

namespace LedgerFile

open PolicyState

variable {s : PolicyState} {o : Observation} {mono wall : ℚ} {incidents : Dict String Incident}

theorem passes_zero_inRange : (0 : ℤ) ≤ 0 ∧ (0 : ℤ) ≤ ledgerMaxPasses := by decide

theorem IncidentsInRange.set (h : IncidentsInRange incidents) {name : String} {incident : Incident}
    (hincident : IncidentInRange incident) : IncidentsInRange (incidents.set name incident) := by
  intro name' incident' hget
  rw [Dict.get?_set] at hget
  split at hget
  case isTrue =>
    rw [Option.some.injEq] at hget
    exact hget ▸ hincident
  case isFalse => exact h name' incident' hget

theorem IncidentsInRange.erase (h : IncidentsInRange incidents) (name : String) :
    IncidentsInRange (incidents.erase name) := by
  intro name' incident' hget
  rw [Dict.get?_erase] at hget
  split at hget
  case isTrue => cases hget
  case isFalse => exact h name' incident' hget

theorem IncidentsInRange.openIncident (h : IncidentsInRange incidents) (hwall : TimeInRange wall)
    (name : String) (rule : Rule) :
    IncidentsInRange (PolicyState.openIncident wall incidents name rule) := by
  unfold PolicyState.openIncident
  split
  case isTrue => exact h.set ⟨hwall, passes_zero_inRange⟩
  case isFalse => exact h

theorem IncidentsInRange.updateIncidents (h : IncidentsInRange incidents)
    (missed unknown : List String) :
    IncidentsInRange (PolicyState.updateIncidents o missed unknown incidents) := by
  refine List.foldlRecOn incidents.items _ h fun incidents' h' item hitem => ?_
  have hrange : IncidentInRange item.2 := h item.1 item.2 (Dict.mem_items_iff.1 hitem)
  unfold updateIncident
  split
  case isTrue => exact h'
  split
  case isTrue => exact h'.set ⟨hrange.opened, passes_zero_inRange⟩
  split
  case isTrue => exact h'
  split
  case isTrue => exact h'.erase item.1
  case isFalse hfew =>
    -- The first pass of two.
    have hpasses : item.2.passes = 0 := by
      have hnonneg := hrange.passes.1
      unfold passesToResolve at hfew
      omega
    have hone : (0 : ℤ) ≤ 1 ∧ (1 : ℤ) ≤ ledgerMaxPasses := by decide
    refine h'.set ⟨hrange.opened, ?_⟩
    dsimp only
    rwa [hpasses]

theorem IncidentsInRange.incidentsAfter (h : IncidentsInRange incidents) (hwall : TimeInRange wall) :
    IncidentsInRange (s.incidentsAfter o mono wall incidents) := by
  unfold PolicyState.incidentsAfter
  dsimp only
  split
  case isTrue => exact h
  case isFalse =>
    have hstarts : IncidentsInRange ((s.tracked o mono wall).startIncidents o wall incidents) := by
      unfold startIncidents
      split
      case isTrue => exact h
      case isFalse =>
        exact List.foldlRecOn _ _ h fun incidents' h' p _ => h'.openIncident hwall p.name .r5
    have htrips : IncidentsInRange (tripIncidents wall ((s.tracked o mono wall).trips o mono wall)
        ((s.tracked o mono wall).startIncidents o wall incidents)) :=
      List.foldlRecOn _ _ hstarts fun incidents' h' trip _ =>
        h'.openIncident hwall trip.program.name trip.rule
    exact htrips.updateIncidents _ _

end LedgerFile

/-! ## The ledger of a cycle -/

namespace LedgerFile

variable {l : Ledger} {wall : ℚ}

theorem LedgerInRange.book (h : LedgerInRange l) {b : Booking} (hb : BookingInRange b)
    (shadow : Bool) : LedgerInRange (l.book b shadow) := by
  refine ⟨fun which other hother => ?_, ?_, ?_⟩
  · rw [Ledger.bookings_book] at hother
    rcases List.mem_append.1 hother with hother | hother
    · exact h.bookings which other hother
    · split at hother
      case isTrue => exact List.mem_singleton.1 hother ▸ hb
      case isFalse => cases hother
  · cases shadow with
    | false => exact h.red
    | true => exact h.red
  · cases shadow with
    | false => exact h.exhausted
    | true => exact h.exhausted

theorem LedgerInRange.prune (h : LedgerInRange l) (wall : ℚ) : LedgerInRange (l.prune wall) := by
  refine ⟨fun shadow b hb => ?_, fun interval hinterval => ?_, fun stop hstop => ?_⟩
  · rw [Ledger.prune_bookings] at hb
    exact h.bookings shadow b (List.mem_of_mem_filter hb)
  · exact h.red interval (List.mem_of_mem_filter hinterval)
  · exact h.exhausted stop (Option.filter_eq_some_iff.1 hstop).1

end LedgerFile

namespace PolicyState

open LedgerFile

variable {s : PolicyState} {o : Observation} {mono wall : ℚ}

theorem ledgerInRange_trackGate (h : LedgerInRange s.ledger) (hwall : TimeInRange wall) :
    LedgerInRange (s.trackGate o mono wall).ledger := by
  unfold trackGate
  split
  case isTrue => exact h
  split
  case isTrue =>
    dsimp only
    split
    case isTrue => exact h
    case isFalse =>
      refine ⟨h.bookings, fun interval hinterval => ?_, h.exhausted⟩
      rcases List.mem_append.1 hinterval with hinterval | hinterval
      · exact h.red interval hinterval
      · rw [List.mem_singleton] at hinterval
        subst hinterval
        exact ⟨hwall, fun stop hstop => by cases hstop⟩
  split
  case isTrue =>
    -- The open interval ends now.
    show LedgerInRange (s.closeRed wall).ledger
    unfold closeRed
    split
    case h_1 start stop hlast =>
      refine ⟨h.bookings, fun interval hinterval => ?_, h.exhausted⟩
      rcases List.mem_append.1 hinterval with hinterval | hinterval
      · exact h.red interval (List.dropLast_subset _ hinterval)
      · rw [List.mem_singleton] at hinterval
        subst hinterval
        refine ⟨(h.red (start, stop) (List.mem_of_getLast? hlast)).start, fun stop' hstop' => ?_⟩
        rw [Option.some.injEq] at hstop'
        exact hstop' ▸ hwall
    case h_2 => exact h
  split
  case isTrue => exact h
  case isFalse => exact h

theorem ledgerInRange_tracked (h : LedgerInRange s.ledger) (hwall : TimeInRange wall) :
    LedgerInRange (s.tracked o mono wall).ledger := by
  have hgate : LedgerInRange ({ s with
      startedMono := some (s.startedMono.getD mono)
      ledger := s.ledger.prune wall } : PolicyState).ledger := h.prune wall
  have hpause : ∀ t : PolicyState, (t.trackPause o).ledger = t.ledger := by
    intro t
    unfold trackPause
    split <;> rfl
  unfold tracked
  show LedgerInRange (PolicyState.trackPause _ o).ledger
  rw [hpause]
  exact ledgerInRange_trackGate hgate hwall

/-- What a cycle books, a file may hold. -/
theorem ledgerInRange_decide (h : LedgerInRange s.ledger) (hwall : TimeInRange wall)
    (hpids : ∀ p ∈ o.running, ∀ pid, p.pid = some pid → PidInRange pid) :
    LedgerInRange (decide s o mono wall).1.ledger := by
  have htracked : LedgerInRange (s.tracked o mono wall).ledger := ledgerInRange_tracked h hwall
  cases hstarved : o.starved with
  | true =>
      rw [decide_of_starved hstarved]
      exact htracked
  | false =>
      rcases @decide_cases s o mono wall hstarved with
        ⟨decision, rest, -, hdecide⟩ | ⟨-, hdecide | ⟨trip, htrip, -, hdecide⟩⟩
      · rw [hdecide]
        show LedgerInRange ((s.tracked o mono wall).startLedger o mono wall)
        unfold startLedger
        refine List.foldlRecOn _ _ htracked fun l hl shadow _ => ?_
        refine List.foldlRecOn _ _ hl fun l hl p _ => ?_
        exact hl.book ⟨hwall, fun pid hpid => by cases hpid⟩ shadow
      · rw [hdecide]
        exact htracked
      · rw [hdecide]
        refine htracked.book ⟨hwall, ?_⟩ _
        exact hpids trip.program (running_of_mem_trips htrip)

end PolicyState

/-! ## Runs -/

namespace LedgerFile

variable {repr : Json → String} {lib : JsonLibrary} {mode : Mode} {restartClasses : List Klass}

theorem TimeInRange.min {time wall : ℚ} (htime : TimeInRange time) (hwall : TimeInRange wall) :
    TimeInRange (min time wall) :=
  ⟨le_min htime.1 hwall.1, (min_le_left _ _).trans htime.2⟩

theorem InRange.broughtBack {f : LedgerFile} (h : f.InRange) {wall : ℚ} (hwall : TimeInRange wall)
    (hlimit : TimeInRange (wall + corruptLedgerS)) : (f.broughtBack wall).InRange := by
  refine ⟨⟨fun shadow b hb => ?_, fun interval hinterval => ?_, fun stop hstop => ?_⟩,
    fun name incident hget => ?_⟩
  · have hbookings : (f.broughtBack wall).ledger.bookings shadow =
        (f.ledger.bookings shadow).map fun b => { b with wall := min b.wall wall } := by
      cases shadow <;> rfl
    rw [hbookings, List.mem_map] at hb
    obtain ⟨b', hb', rfl⟩ := hb
    have hrange := h.ledger.bookings shadow b' hb'
    exact ⟨hrange.wall.min hwall, hrange.pid⟩
  · obtain ⟨interval', hmem, rfl⟩ := List.mem_map.1 hinterval
    have hrange := h.ledger.red interval' hmem
    refine ⟨hrange.start.min hwall, fun stop hstop => ?_⟩
    obtain ⟨stop', hstop', rfl⟩ := Option.map_eq_some_iff.1 hstop
    exact (hrange.stop stop' hstop').min hwall
  · obtain ⟨stop', hstop', rfl⟩ := Option.map_eq_some_iff.1 hstop
    exact (h.ledger.exhausted stop' hstop').min hlimit
  · simp only [LedgerFile.broughtBack, Dict.get?_mapValues, Option.map_eq_some_iff] at hget
    obtain ⟨incident', hget', rfl⟩ := hget
    have hrange := h.incidents name incident' hget'
    exact ⟨hrange.opened.min hwall, hrange.passes⟩

theorem inRange_empty : InRange ⟨Ledger.empty, Dict.empty⟩ := by
  refine ⟨⟨fun shadow b hb => ?_, fun interval hinterval => ?_, fun stop hstop => ?_⟩,
    fun name incident hget => ?_⟩
  · cases shadow <;> cases hb
  · cases hinterval
  · cases hstop
  · rw [Dict.get?_empty] at hget
    cases hget

theorem inRange_exhausted {wall : ℚ} (hlimit : TimeInRange (wall + corruptLedgerS)) :
    InRange ⟨Ledger.exhausted wall, Dict.empty⟩ := by
  refine ⟨⟨inRange_empty.ledger.bookings, inRange_empty.ledger.red, fun stop hstop => ?_⟩,
    inRange_empty.incidents⟩
  cases hstop
  exact hlimit

theorem inRange_of_fromJson {text : String} {f : LedgerFile} (h : fromJson repr lib text = .ok f) :
    f.InRange := by
  unfold fromJson at h
  dsimp only at h
  cases hloads : lib.loads text with
  | error e =>
      rw [hloads] at h
      dsimp only at h
      split at h <;> cases h
  | ok value =>
      rw [hloads] at h
      dsimp only at h
      cases hread : readLedger value with
      | error e =>
          rw [hread] at h
          dsimp only at h
          split at h <;> cases h
      | ok g =>
          rw [hread, Except.ok.injEq] at h
          exact h ▸ inRange_of_readLedger hread

theorem inRange_load {text : Option String} {wall : ℚ} (hwall : TimeInRange wall)
    (hlimit : TimeInRange (wall + corruptLedgerS)) : (load repr lib text wall).InRange := by
  unfold load
  split
  case h_1 => exact inRange_empty
  case h_2 text =>
    split
    case h_1 f hread => exact (inRange_of_fromJson hread).broughtBack hwall hlimit
    case h_2 => exact inRange_exhausted hlimit

/-- In a run with times and process ids that a file may hold, a file may hold the ledger. -/
theorem inRange_of_reachable {w : Watch}
    (h : (fileMachine repr lib mode restartClasses).ReachableVia SaneStep w) : w.file.InRange := by
  refine Machine.ReachableVia.invariant (I := fun w => w.file.InRange) ?_ ?_ h
  · rintro w rfl
    exact inRange_empty
  · intro w label w' hw hsane hstep
    cases label with
    | cycle o mono wall =>
        cases hstep
        obtain ⟨hwall, hpids⟩ := hsane
        exact ⟨PolicyState.ledgerInRange_decide hw.ledger hwall hpids,
          hw.incidents.incidentsAfter hwall⟩
    | start text wall =>
        cases hstep
        obtain ⟨hwall, hlimit⟩ := hsane
        exact inRange_load hwall hlimit

/-- What a library reads back, `from_json` takes back. -/
theorem fromJson_toJson {f : LedgerFile} (h : f.InRange) (hreads : lib.ReadsBack f.toValue) :
    ∃ g, fromJson repr lib (f.toJson lib) = .ok g ∧ g.Same f := by
  obtain ⟨g, hread, hsame⟩ := readLedger_toValue h
  refine ⟨g, ?_, hsame⟩
  unfold fromJson toJson
  rw [hreads]
  dsimp only
  rw [hread]

/-- The runs of the budgets read the ledger of the file. -/
theorem load_ledger {f : LedgerFile} (hreads : lib.ReadsBack f.toValue) (wall : ℚ) :
    (load repr lib (some (f.toJson lib)) wall).ledger = Ledger.load (some f.toValue) wall := by
  unfold load Ledger.load fromJson toJson
  dsimp only
  rw [hreads, Option.map_some]
  dsimp only
  cases readLedger f.toValue with
  | ok g => rfl
  | error e =>
      dsimp only
      cases caught? repr e with
      | some message => rfl
      | none => rfl

/-- In a run with times and process ids that a file may hold, the ledger is read back from its file.
Of any text `from_json` reads a ledger whose file is read back, or it raises `LedgerError`. -/
theorem ledger_round_trips (repr : Json → String) (lib : JsonLibrary) (mode : Mode)
    (restartClasses : List Klass) (hlib : lib.Documented) :
    (∀ w, (fileMachine repr lib mode restartClasses).ReachableVia SaneStep w →
      lib.ReadsBack w.file.toValue →
        ∃ g, fromJson repr lib (w.file.toJson lib) = .ok g ∧ g.Same w.file) ∧
      ∀ text,
        match fromJson repr lib text with
        | .ok f => lib.ReadsBack f.toValue →
            ∃ g, fromJson repr lib (f.toJson lib) = .ok g ∧ g.Same f
        | .error e => ∃ message, e = .ledgerError message := by
  refine ⟨fun w hreachable hreads => ?_, fun text => ?_⟩
  · exact fromJson_toJson (inRange_of_reachable hreachable) hreads
  · cases hresult : fromJson repr lib text with
    | ok f => exact fun hreads => fromJson_toJson (inRange_of_fromJson hresult) hreads
    | error e => exact ledgerError_of_fromJson hlib hresult

/-- The watchdog after a first cycle in which PostgreSQL refuses connections. -/
def firstRed (wall : ℚ) : Watch :=
  Watch.cycleFile ⟨PolicyState.new .enforce [.core] Ledger.empty, Dict.empty⟩
    (smallSystem 0 (.red .refused) true) 0 wall

/-- The file after such a cycle at second 100, as the JSON library writes it. -/
def redText : String :=
  "\x7b\n \"exhausted_until\": null,\n \"incidents\": \x7b\x7d,\n \"real\": [],\n \"red\": [\n" ++
    "  [\n   100.0,\n   null\n  ]\n ],\n \"shadow\": []\n\x7d"

/-- The JSON library on this text and on texts that it refuses. -/
def redLibrary : JsonLibrary where
  dumps _ := redText
  loads text :=
    if text = redText then
      .ok (.dict [("exhausted_until", .null), ("incidents", .dict []), ("real", .list []),
        ("red", .list [.list [.float 100, .null]]), ("shadow", .list [])])
    else .error (.valueError "Expecting value: line 1 column 1 (char 0)")

theorem redLibrary_documented : redLibrary.Documented := by
  intro text message h
  simp only [redLibrary] at h
  split at h <;> simp at h

theorem firstRed_reachable (lib : JsonLibrary) {ok : Watch → WatchLabel → Prop} {wall : ℚ}
    (hok : ok ⟨PolicyState.new .enforce [.core] Ledger.empty, Dict.empty⟩
      (.cycle (smallSystem 0 (.red .refused) true) 0 wall)) :
    (fileMachine repr lib .enforce [.core]).ReachableVia ok (firstRed wall) :=
  ⟨_, rfl, (Machine.Path.refl _).step hok rfl⟩

theorem ledger_round_trips_firstRed :
    (∃ g, fromJson (fun _ => "") redLibrary ((firstRed 100).file.toJson redLibrary) = .ok g ∧
      g.Same (firstRed 100).file) ∧
      fromJson (fun _ => "") redLibrary "" = .error (.ledgerError
        "not a watchdog ledger: Expecting value: line 1 column 1 (char 0)") := by
  have hround := ledger_round_trips (fun _ => "") redLibrary .enforce [.core] redLibrary_documented
  have hpids : ∀ p ∈ (smallSystem 0 (.red .refused) true).running, ∀ pid, p.pid = some pid →
      PidInRange pid := by
    unfold PidInRange
    decide +kernel
  have hreachable : (fileMachine (fun _ => "") redLibrary .enforce [.core]).ReachableVia SaneStep
      (firstRed 100) :=
    firstRed_reachable redLibrary ⟨⟨by decide +kernel, by decide +kernel⟩, hpids⟩
  have hledger : (firstRed 100).file.ledger.real = [] ∧ (firstRed 100).file.ledger.shadow = [] ∧
      (firstRed 100).file.ledger.red = [(100, none)] ∧
      (firstRed 100).file.ledger.exhaustedUntil = none := by decide +kernel
  have hincidents : sortedIncidents (firstRed 100).file.incidents = [] := by decide +kernel
  have hreads : redLibrary.ReadsBack (firstRed 100).file.toValue := by
    obtain ⟨hreal, hshadow, hred, hstop⟩ := hledger
    unfold JsonLibrary.ReadsBack toValue
    rw [hreal, hshadow, hred, hstop, hincidents]
    rfl
  exact ⟨hround.1 _ hreachable hreads, rfl⟩

/-- The file after such a cycle past the year 2100, as the JSON library writes it. -/
def futureText : String :=
  "\x7b\n \"exhausted_until\": null,\n \"incidents\": \x7b\x7d,\n \"real\": [],\n \"red\": [\n" ++
    "  [\n   4102444801.0,\n   null\n  ]\n ],\n \"shadow\": []\n\x7d"

/-- The JSON library on this text and on texts that it refuses. -/
def futureLibrary : JsonLibrary where
  dumps _ := futureText
  loads text :=
    if text = futureText then
      .ok (.dict [("exhausted_until", .null), ("incidents", .dict []), ("real", .list []),
        ("red", .list [.list [.float 4102444801, .null]]), ("shadow", .list [])])
    else .error (.valueError "Expecting value: line 1 column 1 (char 0)")

/-- A clock past the year 2100 gives a ledger that is not read back from its file. -/
theorem future_ledger_not_read_back :
    (fileMachine (fun _ => "4102444801.0") futureLibrary .enforce [.core]).Reachable
        (firstRed 4102444801) ∧
      futureLibrary.ReadsBack (firstRed 4102444801).file.toValue ∧
      fromJson (fun _ => "4102444801.0") futureLibrary
          ((firstRed 4102444801).file.toJson futureLibrary) =
        .error (.ledgerError "not a watchdog ledger: not a time: 4102444801.0") := by
  have hledger : (firstRed 4102444801).file.ledger.real = [] ∧
      (firstRed 4102444801).file.ledger.shadow = [] ∧
      (firstRed 4102444801).file.ledger.red = [(4102444801, none)] ∧
      (firstRed 4102444801).file.ledger.exhaustedUntil = none := by decide +kernel
  have hincidents : sortedIncidents (firstRed 4102444801).file.incidents = [] := by decide +kernel
  have hreads : futureLibrary.ReadsBack (firstRed 4102444801).file.toValue := by
    obtain ⟨hreal, hshadow, hred, hstop⟩ := hledger
    unfold JsonLibrary.ReadsBack toValue
    rw [hreal, hshadow, hred, hstop, hincidents]
    rfl
  have hread : (match readLedger (firstRed 4102444801).file.toValue with
      | .ok _ => none
      | .error e => caught? (fun _ => "4102444801.0") e) = some "not a time: 4102444801.0" := by
    decide +kernel
  refine ⟨firstRed_reachable futureLibrary trivial, hreads, ?_⟩
  unfold fromJson toJson
  rw [hreads]
  dsimp only
  cases hresult : readLedger (firstRed 4102444801).file.toValue with
  | ok f =>
      rw [hresult] at hread
      cases hread
  | error e =>
      rw [hresult] at hread
      dsimp only at hread ⊢
      rw [hread]
      rfl

end LedgerFile

end Watchdog
end ContestManagement
