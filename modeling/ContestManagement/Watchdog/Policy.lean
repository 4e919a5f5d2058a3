import ContestManagement.Lib.Dict
import ContestManagement.Lib.Python
import ContestManagement.Watchdog.Ledger

/-!
# The policy of the watchdog

`decide` turns what the probes saw in one cycle into actions: it keeps track of the database gate,
of pauses and of the programs, applies the rules R1 to R5, and holds what trips while one of the
holds H1 to H8 applies.  H9 turns an action into a would-action in a ledger of its own.

The alerts, their rate limits and hold episodes, the incidents, the evidence and the hourly
statistics decide no action and are left out.
-/

namespace ContestManagement
namespace Watchdog

open Lib

/-! ## Constants -/

def starvedLagS : ℚ := 5
def pauseS : ℚ := 30
def windowSize : ℕ := 6
def missesToTrip : ℕ := 5
def missesToWarn : ℕ := 3
def sectionTripS : ℚ := 180
def sectionWarnS : ℚ := 90
def esIdleTripS : ℚ := 60
def esIdleWarnS : ℚ := 30
def esCpuLookbackS : ℚ := 60
def esCpuMinS : ℚ := 1
def esCpuKeepS : ℚ := 90
def esSectionPrefix : String := "post_finish_lock:"
def invalidationSection : String := "post_finish_lock:_invalidate_submission_sync"
def workerDisabledTripS : ℚ := 180
def workerUnconnectedTripS : ℚ := 300
def esUpForWorkersS : ℚ := 120
def fatalGreenCycles : ℕ := 2
def fatalRedLookbackS : ℚ := 15
def greenBeforeRestartS : ℚ := 120
def lockWaitS : ℚ := 30
def graceS : ℚ := 120

/-! ## What the probes see -/

/-- The kinds of programs that are managed. -/
inductive Kind
  | logService
  | resourceService
  | evaluationService
  | scoringService
  | proxyService
  | contestWebServer
  | adminWebServer
  | worker
  deriving DecidableEq

inductive Klass
  | infra
  | core
  | web
  | workers
  deriving DecidableEq

namespace Kind

def name : Kind → String
  | logService => "LogService"
  | resourceService => "ResourceService"
  | evaluationService => "EvaluationService"
  | scoringService => "ScoringService"
  | proxyService => "ProxyService"
  | contestWebServer => "ContestWebServer"
  | adminWebServer => "AdminWebServer"
  | worker => "Worker"

/-- `KIND_CLASS`. -/
def klass : Kind → Klass
  | logService | resourceService => .infra
  | evaluationService | scoringService | proxyService => .core
  | contestWebServer | adminWebServer => .web
  | worker => .workers

/-- `HTTP_KINDS`. -/
def isHttp : Kind → Bool
  | contestWebServer | adminWebServer => true
  | _ => false

/-- `RPC_RULE_KINDS`. -/
def isRpcRule : Kind → Bool
  | logService | resourceService | evaluationService | scoringService | proxyService => true
  | _ => false

/-- `HEALTH_KINDS`. -/
def isHealth (kind : Kind) : Bool := kind.isHttp || kind.isRpcRule

end Kind

/-- The place of a class in `CLASS_ORDER`. -/
def Klass.order : Klass → ℕ
  | infra => 0
  | core => 1
  | web => 2
  | workers => 3

/-- `pool_of`. -/
def Klass.pool : Klass → Pool
  | workers => .workers
  | _ => .services

inductive ProcessState
  | stopped
  | starting
  | running
  | backoff
  | stopping
  | exited
  | fatal
  | unknown
  | absent
  deriving DecidableEq

/-- What the process source says about one program; a running program has a process id. -/
structure ProgramFacts where
  name : String
  /-- The kind of a program of the CMS that is managed. -/
  kind : Option Kind
  shard : Option ℤ
  state : ProcessState
  pid : Option ℤ
  startWall : Option ℚ
  running_pid : state = .running → pid.isSome

/-- A managed program. -/
structure Program where
  name : String
  kind : Kind
  shard : ℤ
  state : ProcessState
  pid : Option ℤ
  startWall : Option ℚ
  deriving DecidableEq

/-- `managed`. -/
def ProgramFacts.managed? (facts : ProgramFacts) : Option Program :=
  match facts.kind, facts.shard with
  | some kind, some shard =>
      some ⟨facts.name, kind, shard, facts.state, facts.pid, facts.startWall⟩
  | _, _ => none

namespace Program

def klass (p : Program) : Klass := p.kind.klass

def label (p : Program) : String := "cms" ++ p.kind.name ++ " " ++ toString p.shard

end Program

structure Probe where
  ok : Bool
  deriving DecidableEq

/-- The fields of a row of the database snapshot that decide something. -/
structure Backend where
  pid : ℤ
  applicationName : Option String
  state : Option String
  waitEventType : Option String
  waitEvent : Option String
  queryAgeS : Option ℚ

/-- Why the gate is red. -/
inductive GateReason
  | refused
  | timeout
  | tooManyClients
  | authentication
  | other
  deriving DecidableEq

/-- The database gate: green with a snapshot, or red. -/
inductive Gate
  | green (backends : List Backend)
  | red (reason : GateReason)

namespace Gate

def isGreen : Gate → Bool
  | green _ => true
  | red _ => false

/-- `GATE_ANSWERED_REASONS`: PostgreSQL itself answered that it is not available. -/
def isAnsweredRed : Gate → Bool
  | red .refused | red .tooManyClients | red .authentication => true
  | _ => false

def backends : Gate → List Backend
  | green backends => backends
  | red _ => []

end Gate

/-- What the probes saw in one cycle; the process source lists each program once. -/
structure Observation where
  lagS : ℚ
  sincePreviousS : Option ℚ
  supervisorOk : Bool
  programs : List ProgramFacts
  gate : Gate
  http : Dict String Probe
  rpc : Dict String Probe
  health : Dict String PyValue
  workers : Option PyValue
  rankings : Dict String Probe
  holderCpu : Option (ℤ × ℚ)
  inFlight : Bool
  names_distinct : (programs.map ProgramFacts.name).Nodup

namespace Observation

def starved (o : Observation) : Bool := starvedLagS < o.lagS

def managed (o : Observation) : List Program := o.programs.filterMap ProgramFacts.managed?

def running (o : Observation) : List Program :=
  o.managed.filter fun program => program.state = .running

/-- `_liveness_probe`: the probe that R1 or R2 judges a program on. -/
def livenessProbe (o : Observation) (p : Program) : Option Probe :=
  if p.kind.isHttp then o.http.get? p.name
  else if p.kind.isRpcRule then o.rpc.get? p.name
  else none

/-- Whether the liveness probe of a program failed. -/
def missedNow (o : Observation) (p : Program) : Bool :=
  match o.livenessProbe p with
  | some probe => !probe.ok
  | none => false

/-- Whether a cycle tells something about the gate: a starved one only does when PostgreSQL itself
answered that it is not available. -/
def gateCounts (o : Observation) : Bool := !o.starved || o.gate.isAnsweredRed

/-- Whether the watchdog was paused before the cycle. -/
def paused (o : Observation) : Bool :=
  match o.sincePreviousS with
  | none => false
  | some gap => pauseS + starvedLagS < gap

end Observation

/-! ## What carries over -/

inductive Mode
  | observe
  | enforce
  deriving DecidableEq

structure ProgramState where
  pid : Option ℤ
  /-- The last known liveness results, true for a miss. -/
  window : List Bool
  lastActionMono : Option ℚ
  deriving DecidableEq

structure PolicyState where
  mode : Mode
  restartClasses : List Klass
  ledger : Ledger
  programs : Dict String ProgramState
  startedMono : Option ℚ
  greenSinceMono : Option ℚ
  greenCycles : ℕ
  /-- When a sample of the holder thread was taken, its thread and its CPU time. -/
  holderSamples : List (ℚ × ℤ × ℚ)

namespace PolicyState

/-- The state of a watchdog that has just started. -/
def new (mode : Mode) (restartClasses : List Klass) (ledger : Ledger) : PolicyState :=
  ⟨mode, restartClasses, ledger, Dict.empty, none, none, 0, []⟩

/-- `shadow_for`. -/
def shadowFor (s : PolicyState) (klass : Klass) : Bool :=
  s.mode = .enforce && klass ∉ s.restartClasses

/-- Whether an action is only a would-action. -/
def would (s : PolicyState) (shadow : Bool) : Bool :=
  s.mode = .observe || shadow

/-- `_clear_windows`. -/
def clearWindows (s : PolicyState) : PolicyState :=
  { s with programs := s.programs.mapValues fun p => { p with window := [] } }

end PolicyState

/-- A rule that tripped for a program. -/
structure Trip where
  program : Program
  rule : Rule
  deriving DecidableEq

/-- What a cycle decided to do. -/
inductive Decision
  | restart (program : String) (rule : Rule) (would shadow : Bool)
  | start (programs : List String) (would shadow : Bool)
  deriving DecidableEq

/-! ## Bookkeeping -/

namespace PolicyState

/-- Whether the last red interval is still open. -/
def redOpen (s : PolicyState) : Bool :=
  match s.ledger.red.getLast? with
  | some (_, none) => true
  | _ => false

/-- `ledger.red[-1][1] = wall`. -/
def closeRed (s : PolicyState) (wall : ℚ) : PolicyState :=
  match s.ledger.red.getLast? with
  | some (start, _) =>
      { s with ledger := { s.ledger with red := s.ledger.red.dropLast ++ [(start, some wall)] } }
  | none => s

/-- `_track_gate`. -/
def trackGate (s : PolicyState) (o : Observation) (mono wall : ℚ) : PolicyState :=
  if o.gateCounts = false then s
  else if o.gate.isGreen = false then
    { s with
      greenSinceMono := none
      greenCycles := 0
      ledger :=
        if s.redOpen then s.ledger else { s.ledger with red := s.ledger.red ++ [(wall, none)] } }
  else if s.redOpen then
    { (s.closeRed wall).clearWindows with greenSinceMono := some mono, greenCycles := 1 }
  else if s.greenSinceMono = none then
    -- The first green cycle of the watchdog: there is nothing to wait for.
    { s with greenSinceMono := some (mono - greenBeforeRestartS), greenCycles := 1 }
  else { s with greenCycles := s.greenCycles + 1 }

/-- `_track_pause`. -/
def trackPause (s : PolicyState) (o : Observation) : PolicyState :=
  if o.paused then s.clearWindows else s

/-- The window with one more result, of which the last ones are kept. -/
def pushResult (window : List Bool) (miss : Bool) : List Bool :=
  (window ++ [miss]).drop (window.length + 1 - windowSize)

/-- What a cycle notes about one program: a new process has a new window, and the result of a
starved cycle is not known. -/
def trackedState (o : Observation) (p : Program) (known : Option ProgramState) : ProgramState :=
  let before := known.getD ⟨none, [], none⟩
  let window := if before.pid.isSome ∧ before.pid ≠ p.pid then [] else before.window
  { before with
    pid := p.pid
    window := match o.livenessProbe p with
      | some probe => if o.starved then window else pushResult window (!probe.ok)
      | none => window }

/-- `_track_programs`. -/
def trackPrograms (s : PolicyState) (o : Observation) : PolicyState :=
  { s with
    programs := o.running.foldl
      (fun programs p => programs.set p.name (trackedState o p (programs.get? p.name)))
      s.programs }

/-- `_record_holder_cpu`. -/
def recordHolderCpu (s : PolicyState) (o : Observation) (mono : ℚ) : PolicyState :=
  { s with
    holderSamples := (s.holderSamples.filter fun sample => mono - sample.1 ≤ esCpuKeepS) ++
      o.holderCpu.toList.map fun sample => (mono, sample) }

/-- The first phases of a cycle, which a starved cycle has too. -/
def tracked (s : PolicyState) (o : Observation) (mono wall : ℚ) : PolicyState :=
  let started := { s with
    startedMono := some (s.startedMono.getD mono)
    ledger := s.ledger.prune wall }
  (((started.trackGate o mono wall).trackPause o).trackPrograms o).recordHolderCpu o mono

end PolicyState

/-! ## The rules R1 to R4 -/

/-- A busy section of a service. -/
structure Section where
  what : String
  tid : Option ℤ
  ageS : ℚ
  idleS : ℚ

/-- `is_number`: a finite number that is not a boolean. -/
def isNumber? : PyValue → Option ℚ
  | .int i => some i
  | .float q => some q
  | _ => none

def list? : PyValue → Option (List PyValue)
  | .list values => some values
  | _ => none

/-- An entry of the busy sections of an answer, if it is well formed. -/
def section? (entry : PyValue) : Option Section := do
  let what ← (entry.get? "what").bind PyValue.str?
  let ageS ← (entry.get? "age_s").bind isNumber?
  let idleS ← (entry.get? "idle_s").bind isNumber?
  some ⟨what, (entry.get? "tid").bind PyValue.strictInt?, ageS, idleS⟩

/-- `busy_sections`: oldest first. -/
def busySections (payload : Option PyValue) : List Section :=
  match payload.bind fun answer => (answer.get? "busy").bind list? with
  | none => []
  | some entries => (entries.filterMap section?).insertionSort fun a b => b.ageS ≤ a.ageS

namespace PolicyState

variable (s : PolicyState) (o : Observation) (mono wall : ℚ)

def windowOf (name : String) : List Bool :=
  match s.programs.get? name with
  | some p => p.window
  | none => []

/-- The misses in the window of a program. -/
def missesOf (name : String) : ℕ := (s.windowOf name).count true

/-- The rule that judges the liveness of a kind. -/
def livenessRule (kind : Kind) : Option Rule :=
  if kind.isHttp then some .r1 else if kind.isRpcRule then some .r2 else none

/-- `_liveness_trips`: the programs that miss now and have missed often. -/
def livenessTrips : List Trip :=
  o.running.filterMap fun p =>
    match livenessRule p.kind with
    | some rule =>
        if missesToTrip ≤ s.missesOf p.name ∧ o.missedNow p then some ⟨p, rule⟩ else none
    | none => none

/-- The programs with half the misses of a trip. -/
def livenessHalf : List String :=
  (o.running.filter fun p =>
    (livenessRule p.kind).isSome && missesToWarn ≤ s.missesOf p.name).map Program.name

/-- The newest sample of a thread among some samples. -/
def newestSample (samples : List (ℚ × ℤ × ℚ)) : Option (ℚ × ℤ × ℚ) :=
  samples.foldl (fun newest sample =>
    match newest with
    | none => some sample
    | some other => if other.1 < sample.1 then some sample else some other) none

/-- `_holder_idle`. -/
def holderIdle (tid : Option ℤ) : Bool :=
  match tid, o.holderCpu with
  | some tid, some current =>
      if current.1 ≠ tid then false
      else
        match newestSample (s.holderSamples.filter fun sample =>
            sample.2.1 = tid ∧ esCpuLookbackS ≤ mono - sample.1) with
        | none => false
        | some newest => current.2 - newest.2.2 < esCpuMinS
  | _, _ => false

/-- `_es_statement_running`. -/
def esStatementRunning (p : Program) : Bool :=
  !o.gate.isGreen || o.gate.backends.any fun backend =>
    backend.applicationName = some p.label && backend.state = some "active" &&
      backend.waitEventType ≠ some "Lock" && backend.waitEvent ≠ some "ClientWrite"

/-- Whether the oldest section of the evaluation service is past half its trip. -/
def esSectionHalf (busy : Section) : Bool :=
  busy.what.startsWith esSectionPrefix && busy.what ≠ invalidationSection &&
    sectionWarnS < busy.ageS && esIdleWarnS ≤ busy.idleS

/-- `_es_section`: whether it trips. -/
def esSectionTrips (p : Program) (busy : Section) : Bool :=
  esSectionHalf busy && sectionTripS < busy.ageS && esIdleTripS ≤ busy.idleS &&
    s.holderIdle o mono busy.tid && !esStatementRunning o p

/-- The sections of one kind that have lasted longer than a time. -/
def lastsLonger (sections : List Section) (what : String) (duration : Section → ℚ) (limit : ℚ) :
    Bool :=
  sections.any fun busy => busy.what = what && limit < duration busy

/-- Whether a section of a program is past half its trip. -/
def sectionHalf (p : Program) : Bool :=
  let sections := busySections (o.health.get? p.name)
  match p.kind with
  | .evaluationService => sections.head?.any esSectionHalf
  | .scoringService => lastsLonger sections "score" Section.ageS sectionWarnS
  | .proxyService => lastsLonger sections "send" Section.idleS sectionWarnS
  | _ => false

/-- Whether a section of a program trips: `_es_section`, `_ss_section` and `_ps_section`. -/
def sectionTrips (p : Program) : Bool :=
  let sections := busySections (o.health.get? p.name)
  match p.kind with
  | .evaluationService => sections.head?.any (s.esSectionTrips o mono p)
  | .scoringService => lastsLonger sections "score" Section.ageS sectionTripS
  | .proxyService =>
      lastsLonger sections "send" Section.idleS sectionTripS && !o.rankings.items.isEmpty &&
        o.rankings.items.all fun item => item.2.ok
  | _ => false

/-- The statuses of the workers, as the evaluation service reports them. -/
def workerStatuses : List (String × PyValue) :=
  match o.workers with
  | some (.dict items) => items.filter fun item => match item.2 with
      | .dict _ => true
      | _ => false
  | _ => []

/-- `_disabled_too_long`. -/
def disabledTooLong (p : Program) (status : PyValue) : Bool :=
  match (status.get? "disabled_at").bind isNumber?, p.startWall with
  | some disabledAt, some start =>
      status.get? "disabled_by_timeout" matches some (.bool true) && start < disabledAt &&
        workerDisabledTripS ≤ age id wall disabledAt
  | _, _ => false

/-- Whether a worker was disabled only a while ago. -/
def justDisabled (status : PyValue) : Bool :=
  match (status.get? "disabled_at").bind isNumber? with
  | some disabledAt =>
      status.get? "disabled_by_timeout" matches some (.bool true) &&
        age id wall disabledAt < workerDisabledTripS
  | none => false

/-- `_never_connected`. -/
def neverConnected (p : Program) (status : PyValue) (statuses : List (String × PyValue))
    (esUptime : Option ℚ) : Bool :=
  !justDisabled wall status && status.get? "connected" matches some (.bool false) &&
    (statuses.any fun other =>
      other.1 ≠ toString p.shard && other.2.get? "connected" matches some (.bool true)) &&
    esUptime.isSome &&
    match p.startWall with
    | some start => workerUnconnectedTripS ≤ age id wall start
    | none => false

/-- `_worker_trips`. -/
def workerTrips : List Trip :=
  match o.running.find? fun p => p.kind = .evaluationService with
  | none => []
  | some es =>
      let answered := match o.rpc.get? es.name with
        | some probe => probe.ok
        | none => false
      let esUptime := ((o.health.get? es.name).bind (·.get? "uptime_s")).bind isNumber?
      let young := match esUptime with
        | some uptime => uptime < esUpForWorkersS
        | none => false
      if answered = false ∨ young = true then []
      else
        let statuses := workerStatuses o
        o.running.filterMap fun p =>
          if p.kind = .worker then
            match statuses.lookup (toString p.shard) with
            | some status =>
                if disabledTooLong wall p status || neverConnected wall p status statuses esUptime
                then some ⟨p, .r4⟩ else none
            | none => none
          else none

/-- The trips of a cycle, in the order in which the rules are applied. -/
def trips : List Trip :=
  s.livenessTrips o ++
    (o.running.filter (s.sectionTrips o mono)).map (fun p => ⟨p, .r3⟩) ++ workerTrips o wall

/-- The programs that fail for H4. -/
def half : List String :=
  s.livenessHalf o ++ (o.running.filter (sectionHalf o)).map Program.name

/-! ## The holds -/

/-- The holds of a trip, in the order in which they are checked. -/
inductive Hold
  | h1
  | h2
  | h3
  | h4
  | h5
  | h6
  | h7
  | h8
  deriving DecidableEq

/-- `_lock_wait`: whether a backend of the CMS waits for a lock. -/
def lockWait : Bool :=
  o.gate.backends.any fun backend =>
    (backend.applicationName.getD "").startsWith "cms" && backend.waitEventType = some "Lock" &&
      match backend.queryAgeS with
      | some queryAge => lockWaitS < queryAge
      | none => false

/-- `_over_budget`. -/
def overBudget (p : Program) : Bool :=
  programBudget ≤ s.ledger.count p.name .restart (s.shadowFor p.klass) wall

/-- `_correlation`: whether the whole class of a program fails. -/
def correlation (allTrips : List Trip) (failing : List String) (p : Program) : Bool :=
  if p.kind = .worker then
    let tripped := (allTrips.filter fun trip =>
      trip.program.kind = .worker && !s.overBudget wall trip.program).map (·.program.label)
    2 ≤ tripped.dedup.length
  else
    2 ≤ (o.running.filter fun other =>
      other.kind ≠ .worker && other.klass = p.klass && other.name ∈ failing &&
        !s.overBudget wall other).length

/-- `_global_failure`: whether more than a third of the probed programs failed a probe. -/
def globalFailure : Bool :=
  let probed := o.running.filter fun p =>
    p.kind.isHealth && ((o.http.get? p.name).isSome || (o.rpc.get? p.name).isSome)
  let failed := probed.filter fun p =>
    (o.http.get? p.name).any (fun probe => !probe.ok) ||
      (o.rpc.get? p.name).any fun probe => !probe.ok
  probed.length < 3 * failed.length

/-- Whether the watchdog itself has started only a while ago. -/
def inOwnGrace : Bool :=
  match s.startedMono with
  | some started => mono - started < graceS
  | none => true

/-- `_grace`. -/
def inGrace (p : Program) : Bool :=
  s.inOwnGrace mono ||
    (match p.startWall with
      | some start => age id wall start < graceS
      | none => false) ||
    match (s.programs.get? p.name).bind ProgramState.lastActionMono with
    | some last => mono - last < graceS
    | none => false

/-- `_budget`: whether the budget holds an action on a program. -/
def budgetHolds (p : Program) (action : Action) (shadow : Bool) : Bool :=
  (s.ledger.freeAt id p.name p.klass.pool action shadow wall).isSome

/-- Whether the database has been back for only a while. -/
def justGreen : Bool :=
  match s.greenSinceMono with
  | some since => mono - since < greenBeforeRestartS
  | none => true

/-- `_holds`. -/
def holds (allTrips : List Trip) (failing : List String) (acted : Bool) (p : Program)
    (shadow : Bool) : List Hold :=
  (if o.supervisorOk then [] else [.h1]) ++
    (if o.gate.isGreen = false || s.justGreen mono then [.h2] else []) ++
    (if lockWait o then [.h3] else []) ++
    (if s.correlation o wall allTrips failing p then [.h4] else []) ++
    (if globalFailure o then [.h5] else []) ++
    (if s.inGrace mono wall p then [.h6] else []) ++
    (if s.budgetHolds wall p .restart shadow then [.h7] else []) ++
    (if acted || o.inFlight then [.h8] else [])

/-! ## R5 -/

/-- The programs that are fatal, in the order in which they are started. -/
def fatalPrograms : List Program :=
  (o.managed.filter fun p => p.state = .fatal).insertionSort fun a b =>
    a.klass.order < b.klass.order ∨ a.klass.order = b.klass.order ∧ a.name ≤ b.name

/-- The fatal programs that a database outage may have left so. -/
def eligible : List Program :=
  (fatalPrograms o).filter fun p => match p.startWall with
    | some start => s.ledger.redSince (start - fatalRedLookbackS)
    | none => false

/-- The holds of a start; nothing has been done yet in the cycle. -/
def startHolds (p : Program) (shadow : Bool) : List Hold :=
  (if o.supervisorOk then [] else [.h1]) ++
    (if s.inOwnGrace mono then [.h6] else []) ++
    (if s.budgetHolds wall p .start shadow then [.h7] else []) ++
    (if o.inFlight then [.h8] else [])

/-- The programs that are started, for real or in the shadow. -/
def startBatch (shadow : Bool) : List Program :=
  if o.gate.isGreen = false ∨ s.greenCycles < fatalGreenCycles then []
  else
    (s.eligible o).filter fun p =>
      s.shadowFor p.klass = shadow && (s.startHolds o mono wall p shadow).isEmpty

/-- The booking of a start. -/
def startBooking (shadow : Bool) (p : Program) : Booking :=
  ⟨wall, p.name, p.label, p.klass.pool, .start, Rule.r5.name, s.would shadow, none⟩

/-- A batch is booked and decided. -/
def bookBatch (state : PolicyState × List Decision) (shadow : Bool) (batch : List Program) :
    PolicyState × List Decision :=
  if batch.isEmpty then state
  else
    ({ state.1 with
        ledger := batch.foldl (fun l p => l.book (s.startBooking wall shadow p) shadow)
          state.1.ledger },
      state.2 ++ [.start (batch.map Program.name) (s.would shadow) shadow])

/-- `_fatal_starts`. -/
def fatalStarts : PolicyState × List Decision :=
  let real := s.bookBatch wall (s, []) false (s.startBatch o mono wall false)
  s.bookBatch wall real true (s.startBatch o mono wall true)

/-! ## Actions -/

/-- `_restart`. -/
def restart (trip : Trip) (shadow : Bool) : PolicyState × Decision :=
  let p := trip.program
  let booking : Booking :=
    ⟨wall, p.name, p.label, p.klass.pool, .restart, trip.rule.name, s.would shadow, p.pid⟩
  let before := (s.programs.get? p.name).getD ⟨none, [], none⟩
  ({ s with
      ledger := s.ledger.book booking shadow
      programs := s.programs.set p.name { before with lastActionMono := some mono } },
    .restart p.name trip.rule (s.would shadow) shadow)

/-- One trip is acted on, or held; `acted` says whether the cycle has acted before. -/
def actOnTrip (allTrips : List Trip) (failing : List String)
    (state : PolicyState × Bool × List Decision) (trip : Trip) :
    PolicyState × Bool × List Decision :=
  let shadow := state.1.shadowFor trip.program.klass
  match state.1.holds o mono wall allTrips failing state.2.1 trip.program shadow with
  | [] =>
      let done := state.1.restart mono wall trip shadow
      (done.1, true, state.2.2 ++ [done.2])
  | _ :: _ => state

/-- `_act_on_trips`. -/
def actOnTrips (acted : Bool) (decisions : List Decision) (allTrips : List Trip)
    (failing : List String) : PolicyState × Bool × List Decision :=
  allTrips.foldl (actOnTrip o mono wall allTrips failing) (s, acted, decisions)

end PolicyState

/-- `decide`: the new state, and the actions. -/
def decide (s : PolicyState) (o : Observation) (mono wall : ℚ) : PolicyState × List Decision :=
  let t := s.tracked o mono wall
  if o.starved then (t, [])
  else
    let starts := t.fatalStarts o mono wall
    let done := starts.1.actOnTrips o mono wall (!starts.2.isEmpty) starts.2 (t.trips o mono wall)
      (t.half o)
    (done.1, done.2.2)

end Watchdog
end ContestManagement
