import ContestManagement.Io.AsyncRpcServer

/-!
# Each request is answered once

Whatever the peer sends and however the methods end, a request is run at most once and gets at most
one response, which has its id and what its method gave.  Once the connection has ended nothing is
written, and a request whose task has not begun by then is never run.
-/

namespace ContestManagement
namespace Io
namespace Rpc

open Lib

/-- A line asks for a method of the service. -/
def Asks (loads : List UInt8 → Option PyValue) (service : String → Attribute) (data : List UInt8)
    (call : Invocation) : Prop :=
  ∃ request, loads data = some request ∧ request.get? "__id" = some call.id ∧
    request.get? "__method" = some (.str call.method) ∧
    request.get? "__data" = some call.data ∧ service call.method = .callable

/-- A line asks for a method that is not called, and the text says why.  What `TypeError` says of arguments
that are no mapping is Python's. -/
def Refuses (loads : List UInt8 → Option PyValue) (service : String → Attribute) (data : List UInt8)
    (message : String) : Prop :=
  ∃ request method arguments, loads data = some request ∧
    request.get? "__method" = some (.str method) ∧ request.get? "__data" = some arguments ∧
    (service method = .missing ∧ message = "Method " ++ method ++ " doesn't exist." ∨
      service method = .notCallable ∧ message = "Method " ++ method ++ " isn't callable." ∨
      service method = .callable ∧ ∀ items, arguments ≠ .dict items)

/-- What a response says of its request. -/
structure Response.Fits (loads : List UInt8 → Option PyValue) (service : String → Attribute)
    (response : Response) (task : RequestTask) : Prop where
  id : ∃ request, loads task.data = some request ∧ request.get? "__id" = some response.id
  value : response.error = .none → task.result = some (.value response.data)
  error : response.error ≠ .none → response.data = .none ∧ ∃ message, response.error = .str message ∧
    (task.result = some (.raises message) ∨
      task.invocation = none ∧ Refuses loads service task.data message)

namespace RequestPhase

/-- The task has not come to `_write`. -/
def isOpen : RequestPhase → Bool
  | created => true
  | running _ => true
  | _ => false

/-- The task is behind `_write`, or never gets there. -/
def isPast : RequestPhase → Bool
  | draining => true
  | finished => true
  | _ => false

end RequestPhase

/-- What holds of a task between two steps. -/
structure RequestTask.Sound (loads : List UInt8 → Option PyValue)
    (dumps : PyValue → Option (List UInt8)) (service : String → Attribute) (task : RequestTask) :
    Prop where
  created : task.phase = .created → task.invocation = none ∧ task.result = none
  running : ∀ id, task.phase = .running id → ∃ call, task.invocation = some call ∧ call.id = id
  unanswered : task.phase.isOpen = true → task.response = none
  invoked : ∀ call, task.invocation = some call → Asks loads service task.data call
  ended : task.result.isSome = true → task.invocation.isSome = true
  locking : ∀ data, task.phase = .locking data → ∃ response, task.response = some response ∧
    dumps response.toValue = some data
  response : ∀ response, task.response = some response → response.Fits loads service task

theorem RequestPhase.isPast_of_isOpen {phase : RequestPhase} (h : phase.isOpen = true) :
    phase.isPast = false := by
  cases phase with
  | created => rfl
  | running => rfl
  | _ => cases h

namespace RequestTask

variable {loads : List UInt8 → Option PyValue} {dumps : PyValue → Option (List UInt8)}
  {service : String → Attribute} {task : RequestTask}

theorem Sound.fresh (data : List UInt8) : (fresh data).Sound loads dumps service := by
  refine ⟨fun _ => ⟨rfl, rfl⟩, ?_, fun _ => rfl, ?_, ?_, ?_, ?_⟩
  all_goals
    intros
    contradiction

theorem Sound.cancel (h : task.Sound loads dumps service) :
    Sound loads dumps service { task with cancelling := true } :=
  ⟨h.created, h.running, h.unanswered, h.invoked, h.ended, h.locking, fun response hresponse =>
    have hfits := h.response response hresponse
    ⟨hfits.id, hfits.value, hfits.error⟩⟩

theorem Sound.invoke (h : task.Sound loads dumps service) {call : Invocation}
    (hcreated : task.phase = .created) (hasks : Asks loads service task.data call) :
    Sound loads dumps service
      { task with phase := .running call.id, invocation := some call } := by
  have hnone := h.unanswered (by rw [hcreated]; rfl)
  refine ⟨?_, ?_, fun _ => hnone, ?_, fun _ => rfl, ?_, ?_⟩
  · rintro ⟨⟩
  · rintro id ⟨⟩
    exact ⟨call, rfl, rfl⟩
  · rintro other ⟨⟩
    exact hasks
  · rintro data ⟨⟩
  · intro response hresponse
    rw [hnone] at hresponse
    cases hresponse

theorem Sound.noteResult (h : task.Sound loads dumps service) {id : PyValue}
    (hrunning : task.phase = .running id) (result : MethodResult) :
    Sound loads dumps service { task with result := some result } := by
  obtain ⟨call, hcall, -⟩ := h.running id hrunning
  have hnone := h.unanswered (by rw [hrunning]; rfl)
  refine ⟨?_, h.running, h.unanswered, h.invoked, ?_, h.locking, ?_⟩
  · intro hcreated
    rw [hrunning] at hcreated
    cases hcreated
  · intro _
    exact Option.isSome_of_eq_some hcall
  · intro response hresponse
    rw [hnone] at hresponse
    cases hresponse

theorem Sound.respond (h : task.Sound loads dumps service) {response : Response}
    (hfits : response.Fits loads service task) :
    Sound loads dumps service { task with phase := .finished, response := some response } := by
  refine ⟨?_, ?_, ?_, h.invoked, h.ended, ?_, ?_⟩
  · rintro ⟨⟩
  · rintro id ⟨⟩
  · rintro ⟨⟩
  · rintro data ⟨⟩
  · rintro other ⟨⟩
    exact ⟨hfits.id, hfits.value, hfits.error⟩

theorem Sound.lock (h : task.Sound loads dumps service) {response : Response} {data : List UInt8}
    (hresponse : task.response = some response) (hdata : dumps response.toValue = some data) :
    Sound loads dumps service { task with phase := .locking data } := by
  refine ⟨?_, ?_, ?_, h.invoked, h.ended, ?_, ?_⟩
  · rintro ⟨⟩
  · rintro id ⟨⟩
  · rintro ⟨⟩
  · rintro other ⟨⟩
    exact ⟨response, hresponse, hdata⟩
  · intro other hother
    have hfits := h.response other hother
    exact ⟨hfits.id, hfits.value, hfits.error⟩

theorem Sound.close (h : task.Sound loads dumps service) {phase : RequestPhase}
    (hpast : phase.isPast = true) : Sound loads dumps service { task with phase } := by
  refine ⟨?_, ?_, ?_, h.invoked, h.ended, ?_, ?_⟩
  · rintro rfl
    cases hpast
  · rintro id rfl
    cases hpast
  · intro hopen
    rw [RequestPhase.isPast_of_isOpen hopen] at hpast
    cases hpast
  · rintro data rfl
    cases hpast
  · intro response hresponse
    have hfits := h.response response hresponse
    exact ⟨hfits.id, hfits.value, hfits.error⟩

end RequestTask

namespace Server

variable {loads : List UInt8 → Option PyValue} {tooDeep : List UInt8 → Bool}
  {dumps : PyValue → Option (List UInt8)} {service : String → Attribute}
  {s t : Server} {index : Nat} {task : RequestTask}

@[simp] theorem note_tasks (change : RequestTask → RequestTask) :
    (s.note index change).tasks = s.tasks.modify index change := rfl

@[simp] theorem note_written (change : RequestTask → RequestTask) :
    (s.note index change).written = s.written := rfl

@[simp] theorem note_connected (change : RequestTask → RequestTask) :
    (s.note index change).connected = s.connected := rfl

theorem getElem?_note (htask : s.tasks[index]? = some task) (change : RequestTask → RequestTask) :
    (s.note index change).tasks[index]? = some (change task) := by
  rw [note_tasks, Slots.getElem?_modify_of_some htask, if_pos rfl]

theorem getElem?_finalize (htask : s.tasks[index]? = some task) :
    s.finalize.tasks[index]? = some { task with cancelling := true } := by
  rw [finalize, List.getElem?_map, htask]
  rfl

/-! ## What the steps are made of -/

variable (loads dumps service)

inductive Move (s : Server) : Server → Prop
  | reading (b : Bool) : Move s { s with reading := b }
  | finalize : Move s s.finalize
  | invoke {index : Nat} {task : RequestTask} {call : Invocation} : s.tasks[index]? = some task →
      task.phase = .created → task.cancelling = false → Asks loads service task.data call →
      Move s (s.note index fun task =>
        { task with phase := .running call.id, invocation := some call })
  | result {index : Nat} {task : RequestTask} {id : PyValue} (result : MethodResult) :
      s.tasks[index]? = some task → task.phase = .running id →
      Move s (s.note index fun task => { task with result := some result })
  | respond {index : Nat} {task : RequestTask} {response : Response} :
      s.tasks[index]? = some task → task.phase.isOpen = true → response.Fits loads service task →
      Move s (s.note index fun task => { task with phase := .finished, response := some response })
  | finished {index : Nat} {task : RequestTask} : s.tasks[index]? = some task →
      Move s (s.setPhase index .finished)
  | lock {index : Nat} {task : RequestTask} {response : Response} {data : List UInt8} :
      s.tasks[index]? = some task → task.phase.isOpen = false →
      task.response = some response → dumps response.toValue = some data →
      index ∉ s.written.map Prod.fst → Move s (s.setPhase index (.locking data))
  | write {index : Nat} {task : RequestTask} {response : Response} {data : List UInt8} :
      s.connected = true → s.tasks[index]? = some task → task.phase.isOpen = false →
      task.response = some response →
      dumps response.toValue = some data → index ∉ s.written.map Prod.fst →
      Move s { s.setPhase index .draining with written := s.written ++ [(index, data)] }

/-- Some moves, one after the other. -/
abbrev Moves : Server → Server → Prop := Relation.ReflTransGen (Move loads dumps service)

variable {loads dumps service}

/-- A task ends, whatever it was doing. -/
theorem moves_over (htask : s.tasks[index]? = some task) :
    Moves loads dumps service s (s.setPhase index .finished) :=
  Relation.ReflTransGen.single (Move.finished htask)

theorem moves_finalize_over (htask : s.tasks[index]? = some task) :
    Moves loads dumps service s (s.finalize.setPhase index .finished) :=
  (Relation.ReflTransGen.single Move.finalize).trans (moves_over (getElem?_finalize htask))

theorem moves_disconnect_over (htask : s.tasks[index]? = some task) :
    Moves loads dumps service s (s.disconnect.setPhase index .finished) := by
  unfold disconnect
  split
  · exact moves_finalize_over htask
  · exact moves_over htask

theorem moves_write {response : Response} {data : List UInt8}
    (htask : s.tasks[index]? = some task) (hopen : task.phase.isOpen = false)
    (hresponse : task.response = some response)
    (hdata : dumps response.toValue = some data) (hnew : index ∉ s.written.map Prod.fst)
    (drain : Drain) : Moves loads dumps service s (s.write index data drain) := by
  unfold write
  split
  case isFalse => exact moves_finalize_over htask
  case isTrue hconnected =>
    have hwrite : Moves loads dumps service s
        { s.setPhase index .draining with written := s.written ++ [(index, data)] } :=
      Relation.ReflTransGen.single (Move.write hconnected htask hopen hresponse hdata hnew)
    have hdraining := getElem?_note htask fun task => { task with phase := .draining }
    cases drain with
    | done => exact hwrite.trans (moves_over hdraining)
    | waits => exact hwrite
    | fails => exact hwrite.trans (moves_finalize_over hdraining)

theorem moves_respond {response : Response} (htask : s.tasks[index]? = some task)
    (hopen : task.phase.isOpen = true) (hfits : response.Fits loads service task)
    (hnew : index ∉ s.written.map Prod.fst) (drain : Drain) :
    Moves loads dumps service s (s.respond dumps index response drain) := by
  have hrespond : Moves loads dumps service s
      (s.note index fun task => { task with phase := .finished, response := some response }) :=
    Relation.ReflTransGen.single (Move.respond htask hopen hfits)
  have hover := getElem?_note htask fun task =>
    { task with phase := .finished, response := some response }
  unfold respond
  dsimp only
  split
  · exact hrespond
  · rename_i data hdata
    split
    · exact hrespond
    · split
      · exact hrespond.tail (Move.lock hover rfl rfl hdata hnew)
      · exact hrespond.trans (moves_write hover rfl rfl hdata hnew drain)

theorem moves_settle {id : PyValue} {call : Invocation} (htask : s.tasks[index]? = some task)
    (hrunning : task.phase = .running id) (hasks : Asks loads service task.data call)
    (hid : call.id = id)
    (hnew : index ∉ s.written.map Prod.fst) (result : MethodResult) (drain : Drain) :
    Moves loads dumps service s (s.settle dumps index id result drain) := by
  have hresult : Moves loads dumps service s
      (s.note index fun task => { task with result := some result }) :=
    Relation.ReflTransGen.single (Move.result result htask hrunning)
  have hended := getElem?_note htask fun task => { task with result := some result }
  have hopen : task.phase.isOpen = true := by rw [hrunning]; rfl
  obtain ⟨request, hload, hrequest, -⟩ := hasks
  rw [hid] at hrequest
  unfold settle
  cases result with
  | value data =>
      refine hresult.trans (moves_respond hended hopen ?_ hnew drain)
      exact ⟨⟨request, hload, hrequest⟩, fun _ => rfl, fun herror => absurd rfl herror⟩
  | unencodable => exact hresult.trans (moves_over hended)
  | raises message =>
      refine hresult.trans (moves_respond hended hopen ?_ hnew drain)
      exact ⟨⟨request, hload, hrequest⟩, (fun herror => nomatch herror),
        fun _ => ⟨rfl, message, rfl, Or.inl rfl⟩⟩

/-- A request that is refused without a call. -/
theorem fits_refused {id : PyValue} {request : PyValue} {message : String}
    (hload : loads task.data = some request) (hid : request.get? "__id" = some id)
    (hcall : task.invocation = none) (hrefuses : Refuses loads service task.data message) :
    Response.Fits loads service ⟨id, .none, .str message⟩ task :=
  ⟨⟨request, hload, hid⟩, (fun herror => nomatch herror),
    fun _ => ⟨rfl, message, rfl, Or.inr ⟨hcall, hrefuses⟩⟩⟩

theorem moves_callMethod {call : Invocation} {result : Option MethodResult} {drain : Drain}
    (htask : s.tasks[index]? = some task) (hcreated : task.phase = .created)
    (hlive : task.cancelling = false) (hcall : task.invocation = none)
    (hasks : Asks loads service task.data call) (hnew : index ∉ s.written.map Prod.fst)
    (hstep : s.callMethod dumps index call result drain = some t) :
    Moves loads dumps service s t := by
  unfold callMethod at hstep
  split at hstep
  · have hinvoke : Moves loads dumps service s (s.note index fun task =>
        { task with phase := .running call.id, invocation := some call }) :=
      Relation.ReflTransGen.single (Move.invoke htask hcreated hlive hasks)
    have hrunning := getElem?_note htask fun task =>
      { task with phase := .running call.id, invocation := some call }
    dsimp only at hstep
    split at hstep
    · obtain rfl := Option.some.inj hstep
      exact hinvoke
    · obtain rfl := Option.some.inj hstep
      exact hinvoke.trans (moves_settle hrunning rfl hasks rfl hnew _ drain)
  · rename_i hmapping
    obtain rfl := Option.some.inj hstep
    obtain ⟨request, hload, hid, hmethod, hdata, hcallable⟩ := hasks
    have hopen : task.phase.isOpen = true := by rw [hcreated]; rfl
    have hrefuses : ∀ message, Refuses loads service task.data message := fun message =>
      ⟨request, _, _, hload, hmethod, hdata, .inr (.inr ⟨hcallable, fun items heq => hmapping items heq⟩)⟩
    exact moves_respond htask hopen (fits_refused hload hid hcall (hrefuses _)) hnew drain
  · cases hstep

theorem moves_processData {result : Option MethodResult} {drain : Drain}
    (htask : s.tasks[index]? = some task) (hcreated : task.phase = .created)
    (hlive : task.cancelling = false) (hcall : task.invocation = none)
    (hnew : index ∉ s.written.map Prod.fst)
    (hstep : s.processData loads tooDeep dumps service index task.data result drain = some t) :
    Moves loads dumps service s t := by
  have hopen : task.phase.isOpen = true := by rw [hcreated]; rfl
  unfold processData at hstep
  split at hstep
  case h_1 =>
    split at hstep
    · obtain rfl := Option.some.inj hstep
      exact moves_over htask
    · obtain rfl := Option.some.inj hstep
      exact moves_disconnect_over htask
  case h_2 request hload =>
    unfold processIncomingRequest at hstep
    split at hstep
    case h_1 id method data hid hmethod hdata =>
      split at hstep
      case h_1 hmissing =>
        obtain rfl := Option.some.inj hstep
        have hrefuses : Refuses loads service task.data _ :=
          ⟨request, method, data, hload, hmethod, hdata, .inl ⟨hmissing, rfl⟩⟩
        exact moves_respond htask hopen (fits_refused hload hid hcall hrefuses) hnew drain
      case h_2 hnot =>
        obtain rfl := Option.some.inj hstep
        have hrefuses : Refuses loads service task.data _ :=
          ⟨request, method, data, hload, hmethod, hdata, .inr (.inl ⟨hnot, rfl⟩)⟩
        exact moves_respond htask hopen (fits_refused hload hid hcall hrefuses) hnew drain
      case h_3 hcallable =>
        exact moves_callMethod htask hcreated hlive hcall
          ⟨request, hload, hid, hmethod, hdata, hcallable⟩ hnew hstep
    case h_2 =>
      obtain rfl := Option.some.inj hstep
      exact moves_over htask
    case h_3 =>
      obtain rfl := Option.some.inj hstep
      exact moves_disconnect_over htask

/-! ## What holds between two steps -/

variable (loads dumps service)

structure Sound (s : Server) : Prop where
  tasks : ∀ (index : Nat) (task : RequestTask), s.tasks[index]? = some task →
    task.Sound loads dumps service
  written : ∀ (index : Nat) (data : List UInt8), (index, data) ∈ s.written →
    ∃ task response, s.tasks[index]? = some task ∧ task.phase.isPast = true ∧
      task.response = some response ∧ dumps response.toValue = some data
  distinct : (s.written.map Prod.fst).Nodup

variable {loads dumps service}

/-- A task that has not come to `_write` has written nothing. -/
theorem Sound.not_mem_written (h : s.Sound loads dumps service)
    (htask : s.tasks[index]? = some task) (hpast : task.phase.isPast = false) :
    index ∉ s.written.map Prod.fst := by
  intro hmem
  obtain ⟨⟨place, data⟩, hwritten, rfl⟩ := List.mem_map.1 hmem
  obtain ⟨other, response, hother, hphase, -, -⟩ := h.written place data hwritten
  rw [hother, Option.some.injEq] at htask
  rw [← htask, hphase] at hpast
  cases hpast

/-- All that a step can do. -/
theorem Sound.step_cases (h : s.Sound loads dumps service) {a : ServerAction}
    (hstep : s.step loads tooDeep dumps service a = some t) :
    (∃ data, a = .readLine data ∧
      t = { s with tasks := s.tasks ++ [.fresh data], reading := s.connected }) ∨
    (∀ data, a ≠ .readLine data) ∧ Moves loads dumps service s t := by
  cases a with
  | readLine data =>
      left
      rw [step] at hstep
      split at hstep
      case isFalse => cases hstep
      case isTrue => exact ⟨data, rfl, (Option.some.inj hstep).symm⟩
  | endRead how =>
      refine Or.inr ⟨fun _ => nofun, ?_⟩
      rw [step] at hstep
      split at hstep
      case isFalse => cases hstep
      case isTrue =>
        have hfinalize : Moves loads dumps service s s.finalize :=
          Relation.ReflTransGen.single Move.finalize
        obtain rfl := Option.some.inj hstep
        cases how with
        | tooLong => exact (hfinalize.tail Move.finalize).tail (Move.reading false)
        | _ => exact hfinalize.tail (Move.reading false)
  | begin index result drain =>
      refine Or.inr ⟨fun _ => nofun, ?_⟩
      rw [step] at hstep
      split at hstep
      case h_1 => cases hstep
      case h_2 task htask =>
        split at hstep
        case h_2 => cases hstep
        case h_1 hcreated =>
          split at hstep
          case isTrue => cases hstep
          case isFalse hlive =>
            have hnew := h.not_mem_written htask (by rw [hcreated]; rfl)
            have hcall := ((h.tasks index task htask).created hcreated).1
            exact moves_processData htask hcreated (Bool.not_eq_true _ ▸ hlive) hcall hnew hstep
  | finish index result drain =>
      refine Or.inr ⟨fun _ => nofun, ?_⟩
      rw [step] at hstep
      split at hstep
      case h_1 => cases hstep
      case h_2 task htask =>
        split at hstep
        case h_2 => cases hstep
        case h_1 id hrunning =>
          obtain rfl := Option.some.inj hstep
          have hsound := h.tasks index task htask
          obtain ⟨call, hcall, hid⟩ := hsound.running id hrunning
          have hnew := h.not_mem_written htask (by rw [hrunning]; rfl)
          exact moves_settle htask hrunning (hsound.invoked call hcall) hid hnew result drain
  | acquire index drain =>
      refine Or.inr ⟨fun _ => nofun, ?_⟩
      rw [step] at hstep
      split at hstep
      case h_1 => cases hstep
      case h_2 task htask =>
        split at hstep
        case h_2 => cases hstep
        case h_1 data hlocking =>
          split at hstep
          case isFalse => cases hstep
          case isTrue =>
            obtain rfl := Option.some.inj hstep
            obtain ⟨response, hresponse, hdata⟩ := (h.tasks index task htask).locking data hlocking
            have hnew := h.not_mem_written htask (by rw [hlocking]; rfl)
            exact moves_write htask (by rw [hlocking]; rfl) hresponse hdata hnew drain
  | drained index ok =>
      refine Or.inr ⟨fun _ => nofun, ?_⟩
      rw [step] at hstep
      split at hstep
      case h_1 => cases hstep
      case h_2 task htask =>
        split at hstep
        case isFalse => cases hstep
        case isTrue =>
          obtain rfl := Option.some.inj hstep
          cases ok with
          | true => exact moves_over htask
          | false => exact moves_finalize_over htask
  | cancelled index =>
      refine Or.inr ⟨fun _ => nofun, ?_⟩
      rw [step] at hstep
      split at hstep
      case h_1 => cases hstep
      case h_2 task htask =>
        split at hstep
        case h_1 => cases hstep
        case h_2 =>
          obtain rfl := Option.some.inj hstep
          exact moves_over htask
        case h_3 =>
          split at hstep
          case isFalse => cases hstep
          case isTrue =>
            obtain rfl := Option.some.inj hstep
            exact moves_over htask

theorem Sound.note (h : s.Sound loads dumps service) (htask : s.tasks[index]? = some task)
    {change : RequestTask → RequestTask} (hsound : (change task).Sound loads dumps service)
    (hwritten : index ∈ s.written.map Prod.fst →
      (change task).phase.isPast = true ∧ (change task).response = task.response) :
    (s.note index change).Sound loads dumps service := by
  refine ⟨?_, ?_, h.distinct⟩
  · intro place d hd
    obtain ⟨old, hold, rfl⟩ := Slots.of_getElem?_modify hd
    split
    case isTrue heq =>
      subst heq
      rw [htask, Option.some.injEq] at hold
      rw [← hold]
      exact hsound
    case isFalse => exact h.tasks place old hold
  · intro place data hmem
    obtain ⟨d, response, hd, hpast, hresponse, hdata⟩ := h.written place data hmem
    refine ⟨_, response, Slots.getElem?_modify_of_some hd, ?_⟩
    split
    case isTrue heq =>
      subst heq
      rw [htask, Option.some.injEq] at hd
      subst hd
      obtain ⟨hphase, hsame⟩ := hwritten (List.mem_map_of_mem hmem)
      exact ⟨hphase, hsame.trans hresponse, hdata⟩
    case isFalse => exact ⟨hpast, hresponse, hdata⟩

theorem Sound.read (h : s.Sound loads dumps service) (data : List UInt8) (b : Bool) :
    Sound loads dumps service { s with tasks := s.tasks ++ [.fresh data], reading := b } := by
  refine ⟨?_, ?_, h.distinct⟩
  · intro place d hd
    rcases Slots.of_getElem?_concat hd with hold | ⟨-, rfl⟩
    · exact h.tasks place d hold
    · exact .fresh data
  · intro place message hmem
    obtain ⟨d, response, hd, hrest⟩ := h.written place message hmem
    exact ⟨d, response, Slots.getElem?_concat_of_some hd, hrest⟩

theorem Sound.finalize (h : s.Sound loads dumps service) :
    s.finalize.Sound loads dumps service := by
  refine ⟨?_, ?_, h.distinct⟩
  · intro place d hd
    rw [Server.finalize, List.getElem?_map, Option.map_eq_some_iff] at hd
    obtain ⟨old, hold, rfl⟩ := hd
    exact (h.tasks place old hold).cancel
  · intro place data hmem
    obtain ⟨d, response, hd, hrest⟩ := h.written place data hmem
    exact ⟨_, response, getElem?_finalize hd, hrest⟩

theorem Sound.move (h : s.Sound loads dumps service) (hmove : Move loads dumps service s t) :
    t.Sound loads dumps service := by
  cases hmove with
  | reading b => exact ⟨h.tasks, h.written, h.distinct⟩
  | finalize => exact h.finalize
  | invoke htask hcreated hlive hasks =>
      have hsound := h.tasks _ _ htask
      refine h.note htask (hsound.invoke hcreated hasks) fun hmem => ?_
      exact absurd hmem (h.not_mem_written htask (by rw [hcreated]; rfl))
  | result result htask hrunning =>
      have hsound := h.tasks _ _ htask
      refine h.note htask (hsound.noteResult hrunning result) fun hmem => ?_
      exact absurd hmem (h.not_mem_written htask (by rw [hrunning]; rfl))
  | respond htask hopen hfits =>
      have hsound := h.tasks _ _ htask
      refine h.note htask (hsound.respond hfits) fun hmem => ?_
      exact absurd hmem (h.not_mem_written htask (RequestPhase.isPast_of_isOpen hopen))
  | @finished index task htask =>
      show (s.note index fun task => { task with phase := .finished }).Sound loads dumps service
      exact h.note htask ((h.tasks index task htask).close rfl) fun _ => ⟨rfl, rfl⟩
  | lock htask hopen hresponse hdata hnew =>
      refine h.note htask ((h.tasks _ _ htask).lock hresponse hdata) fun hmem => ?_
      exact absurd hmem hnew
  | @write index task response data _ htask hopen hresponse hdata hnew =>
      have hdraining : (s.setPhase index .draining).Sound loads dumps service :=
        h.note htask ((h.tasks index task htask).close rfl) fun _ => ⟨rfl, rfl⟩
      refine ⟨hdraining.tasks, ?_, ?_⟩
      · intro place message hmem
        rcases List.mem_append.1 hmem with hold | hlast
        · exact hdraining.written place message hold
        · obtain ⟨rfl, rfl⟩ := Prod.mk.inj (List.mem_singleton.1 hlast)
          exact ⟨_, response, getElem?_note htask _, rfl, hresponse, hdata⟩
      · rw [List.map_append, List.nodup_append]
        refine ⟨h.distinct, List.nodup_singleton _, ?_⟩
        rintro old hold new hlast rfl
        rw [List.map_cons, List.map_nil, List.mem_singleton] at hlast
        rw [hlast] at hold
        exact hnew hold

theorem Sound.moves (h : s.Sound loads dumps service) (hmoves : Moves loads dumps service s t) :
    t.Sound loads dumps service := by
  induction hmoves with
  | refl => exact h
  | tail _ hmove ih => exact ih.move hmove

theorem Sound.step (h : s.Sound loads dumps service) {a : ServerAction}
    (hstep : s.step loads tooDeep dumps service a = some t) : t.Sound loads dumps service := by
  rcases h.step_cases hstep with ⟨data, -, rfl⟩ | ⟨-, hmoves⟩
  · exact h.read data s.connected
  · exact h.moves hmoves

theorem sound_fresh : Sound loads dumps service fresh :=
  ⟨fun _ _ hd => (nomatch hd), fun _ _ hmem => (nomatch hmem), List.nodup_nil⟩

/-! ## What a run keeps -/

structure Kept (s t : Server) : Prop where
  written : s.written <+: t.written
  lost : s.connected = false → t.connected = false ∧ t.written = s.written
  unrun : ∀ (index : Nat) (task : RequestTask), s.tasks[index]? = some task →
    task.cancelling = true → task.invocation = none →
    ∃ d, t.tasks[index]? = some d ∧ d.cancelling = true ∧ d.invocation = none

theorem Kept.refl (s : Server) : Kept s s :=
  ⟨List.prefix_rfl, fun h => ⟨h, rfl⟩, fun _ task htask hcancel hcall =>
    ⟨task, htask, hcancel, hcall⟩⟩

theorem Kept.trans {u : Server} (hst : Kept s t) (htu : Kept t u) : Kept s u := by
  refine ⟨hst.written.trans htu.written, ?_, ?_⟩
  · intro hlost
    obtain ⟨hlost', hwritten⟩ := hst.lost hlost
    obtain ⟨hlost'', hwritten'⟩ := htu.lost hlost'
    exact ⟨hlost'', hwritten'.trans hwritten⟩
  · intro index task htask hcancel hcall
    obtain ⟨d, hd, hdcancel, hdcall⟩ := hst.unrun index task htask hcancel hcall
    exact htu.unrun index d hd hdcancel hdcall

theorem kept_note (htask : s.tasks[index]? = some task) {change : RequestTask → RequestTask}
    (hcancel : task.cancelling = true → (change task).cancelling = true)
    (hcall : task.cancelling = true → (change task).invocation = task.invocation) :
    Kept s (s.note index change) := by
  refine ⟨List.prefix_rfl, fun h => ⟨h, rfl⟩, ?_⟩
  intro place d hd hdcancel hdcall
  refine ⟨_, Slots.getElem?_modify_of_some hd, ?_⟩
  split
  case isTrue heq =>
    subst heq
    rw [htask, Option.some.injEq] at hd
    subst hd
    exact ⟨hcancel hdcancel, (hcall hdcancel).trans hdcall⟩
  case isFalse => exact ⟨hdcancel, hdcall⟩

theorem Move.kept (hmove : Move loads dumps service s t) : Kept s t := by
  cases hmove with
  | reading b => exact ⟨List.prefix_rfl, fun h => ⟨h, rfl⟩, (Kept.refl s).unrun⟩
  | finalize =>
      refine ⟨List.prefix_rfl, fun _ => ⟨rfl, rfl⟩, ?_⟩
      intro index task htask _ hcall
      exact ⟨_, getElem?_finalize htask, rfl, hcall⟩
  | invoke htask _ hlive _ =>
      refine kept_note htask (fun h => h) fun hcancel => ?_
      rw [hlive] at hcancel
      cases hcancel
  | result result htask _ => exact kept_note htask (fun h => h) fun _ => rfl
  | respond htask _ _ => exact kept_note htask (fun h => h) fun _ => rfl
  | finished htask => exact kept_note htask (fun h => h) fun _ => rfl
  | lock htask _ _ _ _ => exact kept_note htask (fun h => h) fun _ => rfl
  | write hconnected htask _ _ _ _ =>
      refine ⟨List.prefix_append _ _, fun h => ?_, ?_⟩
      · rw [hconnected] at h
        cases h
      · exact (kept_note htask (fun h => h) fun _ => rfl).unrun

theorem Moves.kept (hmoves : Moves loads dumps service s t) : Kept s t := by
  induction hmoves with
  | refl => exact Kept.refl s
  | tail _ hmove ih => exact ih.trans hmove.kept

theorem Sound.kept_step (h : s.Sound loads dumps service) {a : ServerAction}
    (hstep : s.step loads tooDeep dumps service a = some t) : Kept s t := by
  rcases h.step_cases hstep with ⟨data, -, rfl⟩ | ⟨-, hmoves⟩
  · refine ⟨List.prefix_rfl, fun h => ⟨h, rfl⟩, ?_⟩
    intro index task htask hcancel hcall
    exact ⟨task, Slots.getElem?_concat_of_some htask, hcancel, hcall⟩
  · exact hmoves.kept

/-- Without a connection, the tasks that have not begun are cancelled. -/
def Swept (s : Server) : Prop :=
  s.connected = false → ∀ (index : Nat) (task : RequestTask), s.tasks[index]? = some task →
    task.phase = .created → task.cancelling = true

theorem Swept.note (h : s.Swept) {change : RequestTask → RequestTask}
    (hchange : ∀ task, (change task).phase = .created → task.phase = .created ∧
      (change task).cancelling = task.cancelling) : (s.note index change).Swept := by
  intro hlost place d hd hcreated
  obtain ⟨old, hold, rfl⟩ := Slots.of_getElem?_modify hd
  by_cases heq : index = place
  · rw [if_pos heq] at hcreated ⊢
    obtain ⟨holdCreated, hsame⟩ := hchange old hcreated
    rw [hsame]
    exact h hlost place old hold holdCreated
  · rw [if_neg heq] at hcreated ⊢
    exact h hlost place old hold hcreated

theorem Move.swept (hmove : Move loads dumps service s t) (h : s.Swept) : t.Swept := by
  cases hmove with
  | reading b => exact h
  | finalize =>
      intro _ place d hd _
      rw [Server.finalize, List.getElem?_map, Option.map_eq_some_iff] at hd
      obtain ⟨old, -, rfl⟩ := hd
      rfl
  | invoke _ _ _ _ => exact h.note fun _ hcreated => (nomatch hcreated)
  | result result _ _ => exact h.note fun _ hcreated => ⟨hcreated, rfl⟩
  | respond _ _ _ => exact h.note fun _ hcreated => (nomatch hcreated)
  | finished _ => exact h.note fun _ hcreated => (nomatch hcreated)
  | lock _ _ _ _ _ => exact h.note fun _ hcreated => (nomatch hcreated)
  | @write index _ _ _ _ _ _ _ _ _ =>
      have hnote : (s.setPhase index .draining).Swept :=
        h.note fun _ hcreated => (nomatch hcreated)
      exact hnote

/-- The end of the connection cancels the tasks that have not begun. -/
theorem Sound.swept_of_lost (h : s.Sound loads dumps service) {a : ServerAction}
    (hstep : s.step loads tooDeep dumps service a = some t) (hconnected : s.connected = true) :
    t.Swept := by
  rcases h.step_cases hstep with ⟨data, -, rfl⟩ | ⟨-, hmoves⟩
  · intro hlost
    rw [hconnected] at hlost
    cases hlost
  · clear hstep
    induction hmoves with
    | refl =>
        intro hlost
        rw [hconnected] at hlost
        cases hlost
    | tail _ hmove ih => exact hmove.swept ih

theorem sound_of_reachable (h : (serverMachine loads tooDeep dumps service).Reachable s) :
    s.Sound loads dumps service := by
  refine h.invariant ?_ fun s a t hs hstep => hs.step hstep
  rintro s rfl
  exact sound_fresh

theorem Sound.path (h : s.Sound loads dumps service) {ok : Server → ServerAction → Prop}
    (hpath : (serverMachine loads tooDeep dumps service).Path ok s t) :
    t.Sound loads dumps service ∧ Kept s t := by
  induction hpath with
  | refl => exact ⟨h, Kept.refl s⟩
  | step _ _ hstep ih => exact ⟨ih.1.step hstep, ih.2.trans (ih.1.kept_step hstep)⟩

end Server

def requestId : String := "8c1d5a0be0ab4e7f9d3c2b1a00f6e7d8"

def toBytes (text : String) : List UInt8 := text.toList.map fun c => c.toNat.toUInt8

def requestText : List UInt8 :=
  toBytes ("\x7b\"__id\": \"" ++ requestId ++
    "\", \"__method\": \"queue_length\", \"__data\": \x7b\x7d\x7d")

def responseText : List UInt8 :=
  toBytes ("\x7b\"__id\": \"" ++ requestId ++ "\", \"__data\": 3, \"__error\": null\x7d")

def requestValue : PyValue :=
  .dict [("__id", .str requestId), ("__method", .str "queue_length"), ("__data", .dict [])]

def responseValue : PyValue := Response.toValue ⟨.str requestId, .int 3, .none⟩

/-- `json.loads`, on the request and the response. -/
def loadsMessage (data : List UInt8) : Option PyValue :=
  if data = requestText ++ [13, 10] then some requestValue
  else if data = responseText ++ [13, 10] then some responseValue
  else none

/-- `json.dumps`, on the request and the response. -/
def dumpsMessage : PyValue → Option (List UInt8)
  | .dict [("__id", .str id), ("__method", .str method), ("__data", .dict [])] =>
      if id = requestId ∧ method = "queue_length" then some requestText else none
  | .dict [("__id", .str id), ("__data", .int data), ("__error", .none)] =>
      if id = requestId ∧ data = 3 then some responseText else none
  | _ => none

def queueService (name : String) : Attribute :=
  if name = "queue_length" then .callable else .missing

def twoRequests : Server :=
  ((serverMachine loadsMessage (fun _ => false) dumpsMessage queueService).exec .fresh
    [.readLine (requestText ++ [13, 10]), .readLine (requestText ++ [13, 10]),
      .begin 0 (some (.value (.int 3))) .done]).get (by decide +kernel)

/-- The connection ends before the second task begins. -/
def requestsLost : Server :=
  (twoRequests.step loadsMessage (fun _ => false) dumpsMessage queueService
    (.endRead .closed)).get (by decide +kernel)

end Rpc
end Io
end ContestManagement
