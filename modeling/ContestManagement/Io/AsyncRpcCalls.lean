import ContestManagement.Io.AsyncRpcRuns

/-!
# Every call ends once, with its own answer

A line counts only for the calls that were made on the connection it was read from: it carries the
reader of `run`, which is the reader it came from, and is dropped when that is not the current one.
A call that was registered when its connection ended fails, and comes to its end as soon as those
that have the write lock before it let go of it.
-/

namespace ContestManagement
namespace Io
namespace Rpc

open Lib

namespace Client

variable {s t : Client} {loads : List UInt8 → Option PyValue} {autoRetry : Bool}

/-! ## The lines and their connections -/

structure LoopSound (s : Client) : Prop where
  connected : ∀ reader, s.connection = some reader → s.loop = .reading reader reader
  reading : ∀ reader source, s.loop = .reading reader source → source = reader
  answers : ∀ answer ∈ s.answers, answer.source = answer.reader

/-- The calls move; the loop does not, and the connection may be lost. -/
structure OnlyCalls (s t : Client) : Prop where
  loop : t.loop = s.loop
  answers : t.answers = s.answers
  connection : t.connection = s.connection ∨ t.connection = none

theorem OnlyCalls.trans {u : Client} (hst : OnlyCalls s t) (htu : OnlyCalls t u) : OnlyCalls s u := by
  refine ⟨htu.loop.trans hst.loop, htu.answers.trans hst.answers, ?_⟩
  rcases htu.connection with hsame | hnone
  · rw [hsame]
    exact hst.connection
  · exact Or.inr hnone

theorem onlyCalls_finalize (reason : String) : OnlyCalls s (s.finalize reason) :=
  ⟨rfl, rfl, Or.inr rfl⟩

theorem onlyCalls_finish (index : Nat) (outcome : Outcome) (sent : Bool) :
    OnlyCalls s (s.finish index outcome sent) := by
  unfold finish
  split
  · exact ⟨rfl, rfl, Or.inl rfl⟩
  · exact ⟨rfl, rfl, Or.inl rfl⟩

theorem onlyCalls_failWrite (index : Nat) : OnlyCalls s (s.failWrite index) :=
  (onlyCalls_finalize _).trans (onlyCalls_finish index _ _)

theorem onlyCalls_awaitResult (index : Nat) : OnlyCalls s (s.awaitResult index) := by
  unfold awaitResult
  split
  · exact ⟨rfl, rfl, Or.inl rfl⟩
  · split
    · exact ⟨rfl, rfl, Or.inl rfl⟩
    · exact onlyCalls_finish index _ _
    · exact onlyCalls_finish index _ _
    · exact onlyCalls_finish index _ _

theorem onlyCalls_write (index : Nat) (drain : Drain) : OnlyCalls s (s.write index drain) := by
  unfold write
  split
  · exact onlyCalls_failWrite index
  · split
    · exact onlyCalls_awaitResult index
    · exact ⟨rfl, rfl, Or.inl rfl⟩
    · exact onlyCalls_failWrite index

theorem onlyCalls_executeRpc (id method : String) (length : Option Nat) (drain : Drain) :
    OnlyCalls s (s.executeRpc id method length drain) := by
  have hregister : OnlyCalls s (s.register id method) := ⟨rfl, rfl, Or.inl rfl⟩
  unfold executeRpc
  split
  · exact ⟨rfl, rfl, Or.inl rfl⟩
  · split
    · exact hregister.trans (onlyCalls_finish _ _ _)
    · split
      · exact hregister
      · exact hregister.trans (onlyCalls_write _ _)

theorem onlyCalls_dropConnection (reason : String) : OnlyCalls s (s.dropConnection reason) := by
  unfold dropConnection
  split
  · exact ⟨rfl, rfl, Or.inl rfl⟩
  · exact onlyCalls_finalize reason

theorem onlyCalls_processData (answer : Answer) : OnlyCalls s (processData loads s answer) := by
  unfold processData
  split
  · exact ⟨rfl, rfl, Or.inl rfl⟩
  · split
    · exact onlyCalls_dropConnection _
    · unfold processIncomingResponse
      split
      · split
        · exact ⟨rfl, rfl, Or.inl rfl⟩
        · split
          · refine OnlyCalls.trans ?_ (onlyCalls_dropConnection _)
            exact ⟨rfl, rfl, Or.inl rfl⟩
          · exact ⟨rfl, rfl, Or.inl rfl⟩
      · exact onlyCalls_dropConnection _

theorem LoopSound.onlyCalls (h : s.LoopSound) (ht : OnlyCalls s t) : t.LoopSound := by
  refine ⟨fun reader hconnection => ?_, ?_, ?_⟩
  · rw [ht.loop]
    rcases ht.connection with hsame | hnone
    · rw [hsame] at hconnection
      exact h.connected reader hconnection
    · rw [hnone] at hconnection
      cases hconnection
  · rw [ht.loop]
    exact h.reading
  · rw [ht.answers]
    exact h.answers

/-- The loop stops reading; there is no connection then. -/
theorem LoopSound.endRun (h : s.LoopSound) (hconnection : s.connection = none) :
    (s.endRun autoRetry).LoopSound := by
  refine ⟨fun reader hreader => ?_, fun reader source hloop => ?_, h.answers⟩
  · change s.connection = some reader at hreader
    rw [hconnection] at hreader
    cases hreader
  · change (if autoRetry then Loop.connecting else Loop.off) = _ at hloop
    split at hloop
    · cases hloop
    · cases hloop

/-- A loop that does not read has no connection. -/
theorem LoopSound.connection_eq_none (h : s.LoopSound)
    (hloop : ∀ reader source, s.loop ≠ .reading reader source) : s.connection = none := by
  cases hconnection : s.connection with
  | none => rfl
  | some reader => exact absurd (h.connected reader hconnection) (hloop reader reader)

theorem LoopSound.connect (h : s.LoopSound) (hstep : s.step loads autoRetry .connect = some t) :
    t.LoopSound := by
  simp only [Client.step] at hstep
  split at hstep
  · rename_i hloop
    cases hstep
    have hconnection := h.connection_eq_none (by simp [hloop])
    refine ⟨fun reader hreader => ?_, fun reader source hloop => ?_, h.answers⟩
    swap
    · cases hloop
    change s.connection = some reader at hreader
    rw [hconnection] at hreader
    cases hreader
  · cases hstep

theorem LoopSound.tryConnection (h : s.LoopSound) {ok : Bool}
    (hstep : s.step loads autoRetry (.tryConnection ok) = some t) : t.LoopSound := by
  simp only [Client.step] at hstep
  split at hstep
  · rename_i hloop
    have hconnection := h.connection_eq_none (by simp [hloop])
    split at hstep
    · split at hstep
      · cases hstep
        refine ⟨?_, ?_, h.answers⟩
        · rintro reader ⟨⟩
          rfl
        · rintro reader source ⟨⟩
          rfl
      · rename_i reader hreader
        rw [hconnection] at hreader
        cases hreader
    · cases hstep
      exact h.endRun hconnection
  · cases hstep

/-- A line belongs to the connection that it was read from, and the loop goes on with it. -/
theorem LoopSound.readLine (h : s.LoopSound) {data : List UInt8}
    (hstep : s.step loads autoRetry (.readLine data) = some t) : t.LoopSound := by
  simp only [Client.step] at hstep
  split at hstep
  · rename_i reader source hloop
    rw [Option.some.injEq] at hstep
    have hsource := h.reading reader source hloop
    have hadded : ({ s with answers := s.answers ++ [⟨data, reader, source⟩] } : Client).LoopSound := by
      refine ⟨h.connected, h.reading, fun answer hanswer => ?_⟩
      rcases List.mem_append.1 hanswer with hold | hnew
      · exact h.answers answer hold
      · rw [List.mem_singleton] at hnew
        rw [hnew]
        exact hsource
    subst hstep
    unfold readNext
    split
    · rename_i hconnection
      exact hadded.endRun hconnection
    · rename_i current hconnection
      have hcurrent : current = reader := by
        have hreading := h.connected current hconnection
        rw [hloop, Loop.reading.injEq] at hreading
        exact hreading.1.symm
      refine ⟨fun other hother => ?_, ?_, hadded.answers⟩
      · change s.connection = some other at hother
        change s.connection = some current at hconnection
        rw [hconnection, Option.some.injEq] at hother
        rw [← hother, hcurrent]
      · rintro other source ⟨⟩
        exact hcurrent
  · cases hstep

theorem LoopSound.endRead (h : s.LoopSound) {how : ReadEnd}
    (hstep : s.step loads autoRetry (.endRead how) = some t) : t.LoopSound := by
  simp only [Client.step] at hstep
  split at hstep
  · rw [Option.some.injEq] at hstep
    subst hstep
    refine LoopSound.endRun (h.onlyCalls ?_) ?_
    · split
      · exact onlyCalls_finalize _
      · exact (onlyCalls_finalize _).trans (onlyCalls_finalize _)
      · exact onlyCalls_finalize _
    · split <;> rfl
  · cases hstep

theorem LoopSound.step (h : s.LoopSound) {a : RpcAction}
    (hstep : s.step loads autoRetry a = some t) : t.LoopSound := by
  cases a with
  | connect => exact h.connect hstep
  | disconnect =>
      simp only [Client.step] at hstep
      split at hstep
      · cases hstep
      · cases hstep
        refine ⟨fun reader hreader => ?_, fun reader source hloop => ?_, h.answers⟩
        · cases hreader
        · cases hloop
  | tryConnection ok => exact h.tryConnection hstep
  | readLine data => exact h.readLine hstep
  | endRead how => exact h.endRead hstep
  | process index =>
      simp only [Client.step] at hstep
      split at hstep
      · cases hstep
      · rename_i answer _
        rw [Option.some.injEq] at hstep
        subst hstep
        refine LoopSound.onlyCalls ?_ (onlyCalls_processData answer)
        exact ⟨h.connected, h.reading,
          fun other hother => h.answers other (List.mem_of_mem_eraseIdx hother)⟩
  | call id method length drain =>
      simp only [Client.step] at hstep
      split at hstep
      · cases hstep
      · cases hstep
        exact h.onlyCalls (onlyCalls_executeRpc id method length drain)
  | acquire index drain =>
      simp only [Client.step] at hstep
      split at hstep
      · cases hstep
      · split at hstep
        · cases hstep
          exact h.onlyCalls (onlyCalls_write index drain)
        · cases hstep
  | drained index ok =>
      simp only [Client.step] at hstep
      split at hstep
      · cases hstep
      · split at hstep
        · cases hstep
          split
          · exact h.onlyCalls (onlyCalls_awaitResult index)
          · exact h.onlyCalls (onlyCalls_failWrite index)
        · cases hstep
  | resume index =>
      simp only [Client.step] at hstep
      split at hstep
      · cases hstep
      · split at hstep
        · cases hstep
        · split at hstep
          · cases hstep
            exact h.onlyCalls (onlyCalls_finish index _ _)
          · split at hstep
            · cases hstep
            · cases hstep
              exact h.onlyCalls (onlyCalls_awaitResult index)
            · cases hstep
  | cancel index =>
      simp only [Client.step] at hstep
      split at hstep
      · cases hstep
      · split at hstep
        · cases hstep
        · cases hstep
          exact h.onlyCalls ⟨rfl, rfl, Or.inl rfl⟩

theorem loopSound_of_reachable (h : (rpcMachine loads autoRetry).Reachable s) : s.LoopSound := by
  refine Machine.Reachable.invariant (I := LoopSound) ?_ (fun _ _ _ hs hstep => hs.step hstep) h
  rintro start rfl
  refine ⟨fun reader hreader => ?_, fun reader source hloop => ?_, fun answer hanswer => ?_⟩
  · cases hreader
  · cases hloop
  · cases hanswer

/-- A call and its places in the dictionaries are as they were. -/
structure Untouched (s t : Client) (index : Nat) (c : RpcCall) : Prop where
  call : t.calls[index]? = some c
  request : t.pendingOutgoingRequests.get? c.id = s.pendingOutgoingRequests.get? c.id
  result : t.pendingOutgoingRequestsResults.get? c.id = s.pendingOutgoingRequestsResults.get? c.id

/-- A call that is not registered is not touched by the end of the connection. -/
theorem untouched_finalize (hs : s.Sound) {index : Nat} {c : RpcCall}
    (hc : s.calls[index]? = some c)
    (hresult : s.pendingOutgoingRequestsResults.get? c.id = none) (reason : String) :
    Untouched s (s.finalize reason) index c := by
  have hrequest : s.pendingOutgoingRequests.get? c.id = none := by
    have hsame := hs.same c.id
    rw [hresult] at hsame
    simpa using hsame
  refine ⟨?_, by rw [hrequest]; rfl, by rw [hresult]; rfl⟩
  rw [getElem?_finalize hc, if_neg]
  intro hmem
  rw [hs.mem_values hc, hresult] at hmem
  cases hmem

theorem untouched_dropConnection (hs : s.Sound) {index : Nat} {c : RpcCall}
    (hc : s.calls[index]? = some c)
    (hresult : s.pendingOutgoingRequestsResults.get? c.id = none) (reason : String) :
    Untouched s (s.dropConnection reason) index c := by
  unfold dropConnection
  split
  · exact ⟨hc, rfl, rfl⟩
  · exact untouched_finalize hs hc hresult reason

theorem untouched_settled (hs : s.Sound) {index place : Nat} {c : RpcCall} {id : String}
    (hc : s.calls[index]? = some c)
    (hresult : s.pendingOutgoingRequestsResults.get? c.id = none)
    (hget : s.pendingOutgoingRequestsResults.get? id = some place) (data error : PyValue) :
    Untouched s (s.settled id data error place) index c := by
  have hid : c.id ≠ id := by
    rintro rfl
    rw [hresult] at hget
    cases hget
  obtain ⟨d, hd, hdid, -⟩ := hs.registered id place hget
  have hplace : place ≠ index := by
    rintro rfl
    rw [hc, Option.some.injEq] at hd
    rw [hd] at hid
    exact hid hdid
  refine ⟨?_, ?_, ?_⟩
  · change (List.modify _ _ _)[index]? = _
    rw [List.getElem?_modify_ne _ _ hplace]
    exact hc
  · change (Dict.erase _ _).get? _ = _
    rw [Dict.get?_erase, if_neg hid]
  · change (Dict.erase _ _).get? _ = _
    rw [Dict.get?_erase, if_neg hid]

theorem untouched_processIncomingResponse (hs : s.Sound) {index : Nat} {c : RpcCall}
    (hc : s.calls[index]? = some c)
    (hresult : s.pendingOutgoingRequestsResults.get? c.id = none) (response : PyValue) :
    Untouched s (s.processIncomingResponse response) index c := by
  unfold processIncomingResponse
  split
  · rename_i id data error _ _ _
    split
    · exact ⟨hc, rfl, rfl⟩
    · rename_i method hmethod
      split
      · rename_i hnone
        have hsame := hs.same id
        rw [hmethod, hnone] at hsame
        cases hsame
      · rename_i place hplace
        exact untouched_settled hs hc hresult hplace data error
  · exact untouched_dropConnection hs hc hresult _

/-- A line has no effect on a call that was made on another connection than the one it was read
from. -/
theorem Good.untouched (h : s.Good) {answer : Answer} (hsource : answer.source = answer.reader)
    {index : Nat} {c : RpcCall} (hc : s.calls[index]? = some c)
    (hmade : c.madeOn ≠ some answer.source) :
    Untouched s (processData loads s answer) index c := by
  unfold processData
  split
  · exact ⟨hc, rfl, rfl⟩
  · rename_i hconnection
    rw [not_not] at hconnection
    have hresult : s.pendingOutgoingRequestsResults.get? c.id = none := by
      cases hget : s.pendingOutgoingRequestsResults.get? c.id with
      | none => rfl
      | some place =>
          obtain ⟨-, d, hd, hdmade⟩ := h.current c.id place hget
          obtain ⟨e, he, heid, -⟩ := h.sound.registered c.id place hget
          obtain rfl := h.sound.ids place index e c he hc heid
          rw [hc, Option.some.injEq] at hd
          rw [hd, hdmade, hconnection, hsource] at hmade
          exact absurd rfl hmade
    split
    · exact untouched_dropConnection h.sound hc hresult _
    · exact untouched_processIncomingResponse h.sound hc hresult _

/-! ## A call that can only fail comes to its end -/

/-- The steps in which a call goes on by itself. -/
def GoesOn (_ : Client) : RpcAction → Prop
  | .acquire _ _ | .drained _ _ | .resume _ => True
  | _ => False

end Client

/-- How many steps a call has before it. -/
def CallPhase.left : CallPhase → Nat
  | locking => 3
  | draining => 2
  | awaiting => 1
  | ended _ => 0

theorem CallPhase.left_pos {phase : CallPhase} (h : phase.isEnded = false) : 0 < phase.left := by
  cases phase with
  | ended outcome => cases h
  | _ => exact Nat.succ_pos _

namespace Client

variable {s t : Client} {loads : List UInt8 → Option PyValue} {autoRetry : Bool}

/-- How many steps all calls have before them. -/
def left (s : Client) : Nat := (s.calls.map fun call => call.phase.left).sum

theorem left_set {index : Nat} {c d : RpcCall} (hc : s.calls[index]? = some c)
    (h : t.calls = s.calls.set index d) : t.left + c.phase.left = s.left + d.phase.left := by
  unfold left
  rw [h]
  exact Slots.sum_map_set _ hc

theorem left_finalize (reason : String) : (s.finalize reason).left = s.left := by
  unfold left
  congr 1
  refine List.ext_getElem? fun place => ?_
  rw [List.getElem?_map, List.getElem?_map]
  cases hc : s.calls[place]? with
  | none =>
      have hnone : (s.finalize reason).calls[place]? = none := by
        change (failResults _ _ _)[place]? = none
        rw [getElem?_failResults, hc]
        rfl
      rw [hnone]
  | some c =>
      rw [getElem?_finalize hc]
      split
      · rw [Option.map_some, Option.map_some, RpcCall.setException_phase]
      · rfl

theorem left_finish {index : Nat} {c : RpcCall} (hc : s.calls[index]? = some c)
    (hopen : c.phase.isEnded = false) (outcome : Outcome) (sent : Bool) :
    (s.finish index outcome sent).left < s.left := by
  have hset := left_set hc (calls_finish hc outcome sent)
  have hpos := CallPhase.left_pos hopen
  change _ + c.phase.left = s.left + 0 at hset
  omega

theorem left_awaitResult {index : Nat} {c : RpcCall} (hc : s.calls[index]? = some c)
    (hopen : c.phase.isEnded = false) (hfuture : c.future ≠ .pending ∨ c.phase ≠ .awaiting) :
    (s.awaitResult index).left < s.left := by
  unfold awaitResult
  rw [hc]
  dsimp only
  split
  · rename_i hpending
    rw [setPhase_of_some hc]
    have hset := left_set (t := { s with calls := s.calls.set index { c with phase := .awaiting } })
      hc rfl
    have htwo : 2 ≤ c.phase.left := by
      cases hphase : c.phase with
      | locking => simp [CallPhase.left]
      | draining => simp [CallPhase.left]
      | awaiting =>
          rcases hfuture with hne | hne
          · exact absurd hpending hne
          · exact absurd hphase hne
      | ended outcome =>
          rw [hphase] at hopen
          cases hopen
    change _ + c.phase.left = s.left + 1 at hset
    omega
  · exact left_finish hc hopen _ _
  · exact left_finish hc hopen _ _
  · exact left_finish hc hopen _ _

theorem left_failWrite {index : Nat} {c : RpcCall} (hc : s.calls[index]? = some c)
    (hopen : c.phase.isEnded = false) : (s.failWrite index).left < s.left := by
  have hcall := getElem?_finalize hc "Write failed."
  have hless := left_finish hcall (by split <;> simp [hopen])
    (.rpcError (.str "Write failed.")) false
  rw [left_finalize] at hless
  exact hless

theorem left_write {index : Nat} {c : RpcCall} (hc : s.calls[index]? = some c)
    (hphase : c.phase = .locking) : (s.write index .done).left < s.left := by
  have hopen : c.phase.isEnded = false := by
    rw [hphase]
    rfl
  unfold write
  split
  · exact left_failWrite hc hopen
  · exact left_awaitResult hc hopen (Or.inr (by rw [hphase]; simp))

/-- A call that has the write lock can go on. -/
theorem exists_step_draining {index : Nat} {c : RpcCall} (hc : s.calls[index]? = some c)
    (hphase : c.phase = .draining) :
    ∃ a t, GoesOn s a ∧ s.step loads autoRetry a = some t ∧ t.left < s.left := by
  have hopen : c.phase.isEnded = false := by
    rw [hphase]
    rfl
  cases hcancelling : c.cancelling with
  | true =>
      refine ⟨.resume index, _, trivial, ?_, left_finish hc hopen .cancelled c.phase.isAwaiting⟩
      simp [Client.step, hc, hopen, hcancelling]
  | false =>
      refine ⟨.drained index true, _, trivial, ?_,
        left_awaitResult hc hopen (Or.inr (by rw [hphase]; simp))⟩
      simp [Client.step, hc, hphase, hcancelling, CallPhase.isDraining]

/-- The call that waits first for the write lock can go on when it is free. -/
theorem exists_step_waiting (hlocked : s.locked = false) :
    ∀ {index : Nat} {c : RpcCall}, s.calls[index]? = some c → c.isWaiting = true →
      ∃ a t, GoesOn s a ∧ s.step loads autoRetry a = some t ∧ t.left < s.left := by
  intro index
  induction index using Nat.strong_induction_on with
  | _ index ih =>
      intro c hc hwaiting
      by_cases hfirst : (s.calls.take index).any RpcCall.isWaiting = true
      · rw [List.any_eq_true] at hfirst
        obtain ⟨d, hd, hdwaiting⟩ := hfirst
        obtain ⟨place, hplace⟩ := List.mem_iff_getElem?.1 hd
        rw [List.getElem?_take] at hplace
        split at hplace
        · rename_i hlt
          exact ih place hlt hplace hdwaiting
        · cases hplace
      · have hphase : c.phase = .locking := by
          unfold RpcCall.isWaiting at hwaiting
          cases hphase : c.phase with
          | locking => rfl
          | _ =>
              rw [hphase] at hwaiting
              cases hwaiting
        refine ⟨.acquire index .done, _, trivial, ?_, left_write hc hphase⟩
        rw [Bool.not_eq_true] at hfirst
        simp [Client.step, hc, hwaiting, hlocked, hfirst]

/-- While there is a call that is not over and has its future done, some call can go on. -/
theorem exists_step {index : Nat} {c : RpcCall} (hc : s.calls[index]? = some c)
    (hopen : c.phase.isEnded = false) (hfuture : c.future ≠ .pending) :
    ∃ a t, GoesOn s a ∧ s.step loads autoRetry a = some t ∧ t.left < s.left := by
  cases hcancelling : c.cancelling with
  | true =>
      refine ⟨.resume index, _, trivial, ?_, left_finish hc hopen .cancelled c.phase.isAwaiting⟩
      simp [Client.step, hc, hopen, hcancelling]
  | false =>
      cases hphase : c.phase with
      | locking =>
          cases hlocked : s.locked with
          | true =>
              unfold locked at hlocked
              rw [List.any_eq_true] at hlocked
              obtain ⟨d, hd, hdraining⟩ := hlocked
              obtain ⟨place, hplace⟩ := List.mem_iff_getElem?.1 hd
              refine exists_step_draining hplace ?_
              cases hdphase : d.phase with
              | draining => rfl
              | _ =>
                  rw [hdphase] at hdraining
                  cases hdraining
          | false =>
              refine exists_step_waiting hlocked hc ?_
              simp [RpcCall.isWaiting, hphase, hcancelling, CallPhase.isLocking]
      | draining => exact exists_step_draining hc hphase
      | awaiting =>
          refine ⟨.resume index, _, trivial, ?_, left_awaitResult hc hopen (Or.inl hfuture)⟩
          cases hdone : c.future with
          | pending => exact absurd hdone hfuture
          | _ => simp [Client.step, hc, hcancelling, hphase, hdone, CallPhase.isEnded]
      | ended outcome =>
          rw [hphase] at hopen
          cases hopen

/-- A call whose future is done comes to its end. -/
theorem Good.exists_ended (h : s.Good) {index : Nat} {c : RpcCall} (hc : s.calls[index]? = some c)
    (hfuture : c.phase.isEnded = false → c.future ≠ .pending) :
    ∃ t, (rpcMachine loads autoRetry).Path GoesOn s t ∧
      ∃ d, t.calls[index]? = some d ∧ d.phase.isEnded = true := by
  induction hleft : s.left using Nat.strong_induction_on generalizing s c with
  | _ n ih =>
      cases hopen : c.phase.isEnded with
      | true => exact ⟨s, .refl s, c, hc, hopen⟩
      | false =>
          obtain ⟨a, t, hgoes, hstep, hless⟩ :=
            @exists_step s loads autoRetry index c hc hopen (hfuture hopen)
          obtain ⟨ht, hkept⟩ := h.step hstep
          obtain ⟨d, hd, hevolves⟩ := hkept index c hc
          rw [hleft] at hless
          have hdone : d.phase.isEnded = false → d.future ≠ .pending := by
            intro _
            rw [hevolves.future (hfuture hopen)]
            exact hfuture hopen
          obtain ⟨u, hpath, hu⟩ := ih t.left hless ht hd hdone rfl
          exact ⟨u, ((Machine.Path.refl s).step hgoes hstep).trans hpath, hu⟩

end Client

section Calls

variable {s : Client} {loads : List UInt8 → Option PyValue} {autoRetry : Bool}

/-- A call that was registered when the connection ended, in every later state. -/
theorem Client.Good.failed_call (h : s.Good) {a : RpcAction} {t : Client}
    (hstep : s.step loads autoRetry a = some t) (hconnected : s.connection.isSome = true)
    (hended : t.connection = none) {index : Nat} {c : RpcCall} (hc : s.calls[index]? = some c)
    (hregistered : c.id ∈ s.pendingOutgoingRequestsResults.keys) {u : Client}
    (hpath : (rpcMachine loads autoRetry).Path (fun _ _ => True) t u) :
    ∃ d, u.calls[index]? = some d ∧ d.id = c.id ∧
      (∀ outcome, d.phase = .ended outcome →
        (∃ error, outcome = .rpcError error) ∨ outcome = .cancelled ∧ d.cancelling = true) ∧
      ∃ v, (rpcMachine loads autoRetry).Path Client.GoesOn u v ∧
        ∃ e, v.calls[index]? = some e ∧ e.phase.isEnded = true := by
  have hget : s.pendingOutgoingRequestsResults.get? c.id = some index := by
    obtain ⟨place, hplace⟩ := Dict.mem_keys_iff.1 hregistered
    obtain ⟨d, hd, hid, -⟩ := h.sound.registered c.id place hplace
    obtain rfl := h.sound.ids index place c d hc hd hid.symm
    exact hplace
  obtain ⟨b, hb, hcb, hfailing⟩ := h.failing_of_step hstep hconnected hended hc hget
  obtain ⟨hu, hkept⟩ := (h.step hstep).1.path hpath
  obtain ⟨d, hd, hbd⟩ := hkept index b hb
  have hdfailing := hu.failing_of_evolves hd hbd hfailing
  refine ⟨d, hd, hbd.id.trans hcb.id, ?_, ?_⟩
  · intro outcome hphase
    exact hu.outcome_of_failing hd hdfailing hphase
  · exact hu.exists_ended hd fun hopen => (hdfailing.2 hopen).1

/-- In every run the two dictionaries have the same ids; a call returns a value only if an answer
with its id, no error and that value was processed while it was pending, and no answer settles two
calls; a call that is over is in neither dictionary and stays as it is; a call that was registered
when the connection ended is registered no more and raises `RPCError`, unless its caller is
cancelled, as soon as the calls go on; and a line has no effect on the calls that were made on
another connection than the one it was read from. -/
theorem every_call_ends_with_its_answer (hs : (rpcMachine loads autoRetry).Reachable s) :
    (∀ id, id ∈ s.pendingOutgoingRequests.keys ↔ id ∈ s.pendingOutgoingRequestsResults.keys) ∧
    (∀ (index : Nat) (c : RpcCall) (data : PyValue), s.calls[index]? = some c →
      c.phase = .ended (.value data) → ∃ number entry, c.answer = some number ∧
        s.processed[number]? = some entry ∧ entry.id = c.id ∧ entry.error = .none ∧
        entry.data = data ∧ c.id ∈ entry.pending) ∧
    (∀ (first second : Nat) (c d : RpcCall) (number : Nat), s.calls[first]? = some c →
      s.calls[second]? = some d → c.answer = some number → d.answer = some number →
      first = second) ∧
    (∀ (index : Nat) (c : RpcCall), s.calls[index]? = some c → c.phase.isEnded = true →
      c.id ∉ s.pendingOutgoingRequests.keys ∧ c.id ∉ s.pendingOutgoingRequestsResults.keys ∧
      ∀ t, (rpcMachine loads autoRetry).Path (fun _ _ => True) s t → t.calls[index]? = some c) ∧
    (∀ a t, s.step loads autoRetry a = some t → s.connection.isSome = true → t.connection = none →
      t.pendingOutgoingRequests.keys = [] ∧ t.pendingOutgoingRequestsResults.keys = [] ∧
      ∀ (index : Nat) (c : RpcCall), s.calls[index]? = some c →
        c.id ∈ s.pendingOutgoingRequestsResults.keys →
        ∀ u, (rpcMachine loads autoRetry).Path (fun _ _ => True) t u →
          ∃ d, u.calls[index]? = some d ∧ d.id = c.id ∧
            (∀ outcome, d.phase = .ended outcome →
              (∃ error, outcome = .rpcError error) ∨
                outcome = .cancelled ∧ d.cancelling = true) ∧
            ∃ v, (rpcMachine loads autoRetry).Path Client.GoesOn u v ∧
              ∃ e, v.calls[index]? = some e ∧ e.phase.isEnded = true) ∧
    (∀ (place : Nat) (answer : Answer) (t : Client), s.answers[place]? = some answer →
      s.step loads autoRetry (.process place) = some t →
      ∀ (index : Nat) (c : RpcCall), s.calls[index]? = some c → c.madeOn ≠ some answer.source →
        t.calls[index]? = some c ∧
        t.pendingOutgoingRequests.get? c.id = s.pendingOutgoingRequests.get? c.id ∧
        t.pendingOutgoingRequestsResults.get? c.id =
          s.pendingOutgoingRequestsResults.get? c.id) := by
  have hgood := Client.good_of_reachable hs
  have hsound := hgood.sound
  refine ⟨?_, ?_, ?_, ?_, ?_, ?_⟩
  · intro id
    rw [Dict.mem_keys_iff, Dict.mem_keys_iff, ← Option.isSome_iff_exists,
      ← Option.isSome_iff_exists, hsound.same]
  · intro index c data hc hphase
    exact (hsound.calls index c hc).result data ((hsound.calls index c hc).value data hphase)
  · intro first second c d number hc hd hanswer hanswer'
    obtain ⟨entry, hentry, hid⟩ := (hsound.calls first c hc).answered number hanswer
    obtain ⟨entry', hentry', hid'⟩ := (hsound.calls second d hd).answered number hanswer'
    rw [hentry, Option.some.injEq] at hentry'
    exact hsound.ids first second c d hc hd (by rw [← hid, hentry', hid'])
  · intro index c hc hended
    obtain ⟨hrequest, hresult⟩ := hsound.get?_of_isEnded hc hended
    refine ⟨?_, ?_, ?_⟩
    · rw [Dict.mem_keys_iff, hrequest]
      rintro ⟨method, ⟨⟩⟩
    · rw [Dict.mem_keys_iff, hresult]
      rintro ⟨place, ⟨⟩⟩
    · intro t hpath
      obtain ⟨d, hd, hevolves⟩ := (hgood.path hpath).2 index c hc
      rw [hd, hevolves.ended hended]
  · intro a t hstep hconnected hended
    obtain ⟨hrequests, hresults⟩ := (hgood.step hstep).1.keys_of_none hended
    refine ⟨hrequests, hresults, ?_⟩
    intro index c hc hregistered u hpath
    exact hgood.failed_call hstep hconnected hended hc hregistered hpath
  · intro place answer t hanswer hstep index c hc hmade
    simp only [Client.step, hanswer, Option.some.injEq] at hstep
    subst hstep
    have hsource := (Client.loopSound_of_reachable hs).answers answer (List.mem_of_getElem? hanswer)
    have hsame : Client.SameCalls s { s with answers := s.answers.eraseIdx place } :=
      ⟨rfl, rfl, rfl, rfl⟩
    have huntouched : Client.Untouched _ (Client.processData loads _ answer) index c :=
      (hgood.congr hsame rfl).untouched hsource hc hmade
    exact ⟨huntouched.call, huntouched.request, huntouched.result⟩

end Calls

/-! ### Two calls, one answer and the end of the connection -/

def firstId : String := "8c1d5a0be0ab4e7f9d3c2b1a00f6e7d8"

def secondId : String := "0b6c9d2f4a8e4c51b7f3a1d200e4c9aa"

/-- The answer to the first call. -/
def answerLine : List UInt8 :=
  ("\x7b\"__data\": 3, \"__error\": null, \"__id\": \"" ++ firstId ++ "\"\x7d\r\n").toList.map
    fun c => c.toNat.toUInt8

/-- `json.loads`, on the answer. -/
def loadsAnswer (data : List UInt8) : Option PyValue :=
  if data = answerLine then
    some (.dict [("__data", .int 3), ("__error", .none), ("__id", .str firstId)])
  else none

def twoCalls : List RpcAction :=
  [.connect, .tryConnection true, .call firstId "queue_length" (some 90) .done,
    .call secondId "queue_length" (some 90) .done]

/-- The first call is answered, the second one waits. -/
def callAnswered : Client :=
  ((rpcMachine loadsAnswer true).exec .fresh
    (twoCalls ++ [.readLine answerLine, .process 0, .resume 0])).get (by decide +kernel)

theorem callAnswered_reachable : (rpcMachine loadsAnswer true).Reachable callAnswered :=
  Machine.reachable_of_exec rfl (Option.some_get _).symm

/-- The connection ends. -/
def callLost : Client :=
  (callAnswered.step loadsAnswer true (.endRead .closed)).get (by decide +kernel)

theorem every_call_ends_with_its_answer_two :
    (∃ (number : Nat) (entry : Processed), callAnswered.processed[number]? = some entry ∧
      entry.id = firstId ∧ entry.data = .int 3 ∧ firstId ∈ entry.pending) ∧
    callLost.pendingOutgoingRequestsResults.keys = [] ∧
    ∃ v, (rpcMachine loadsAnswer true).Path Client.GoesOn callLost v ∧
      ∃ e : RpcCall, v.calls[1]? = some e ∧ e.phase.isEnded = true := by
  obtain ⟨-, hvalue, -, -, hlost, -⟩ := every_call_ends_with_its_answer callAnswered_reachable
  have hfirst : callAnswered.calls[0]? = some ⟨firstId, "queue_length", .ended (.value (.int 3)),
    .result (.int 3), false, some 0, some 0⟩ := by rfl
  have hsecond : callAnswered.calls[1]? =
    some ⟨secondId, "queue_length", .awaiting, .pending, false, some 0, none⟩ := by rfl
  obtain ⟨number, entry, -, hentry, hid, -, hdata, hpending⟩ := hvalue 0 _ (.int 3) hfirst rfl
  refine ⟨⟨number, entry, hentry, hid, hdata, hpending⟩, ?_⟩
  obtain ⟨-, hkeys, hcall⟩ := hlost (.endRead .closed) callLost (Option.some_get _).symm rfl rfl
  obtain ⟨d, -, -, -, hend⟩ :=
    hcall 1 _ hsecond (by decide +kernel) callLost (Machine.Path.refl callLost)
  exact ⟨hkeys, hend⟩

/-! ### A caller that is cancelled when the connection ends -/

/-- The caller is cancelled, and the call has not run since. -/
def callCancelled : Client :=
  ((rpcMachine loadsAnswer true).exec .fresh (twoCalls ++ [.cancel 1])).get (by decide +kernel)

theorem callCancelled_reachable : (rpcMachine loadsAnswer true).Reachable callCancelled :=
  Machine.reachable_of_exec rfl (Option.some_get _).symm

/-- The call is registered when the connection ends, and yet it raises `CancelledError`. -/
theorem cancelled_call_registered :
    (rpcMachine loadsAnswer true).Reachable callCancelled ∧
    callCancelled.connection.isSome = true ∧
    secondId ∈ callCancelled.pendingOutgoingRequestsResults.keys ∧
    ∃ lost ended : Client, callCancelled.step loadsAnswer true (.endRead .closed) = some lost ∧
      lost.connection = none ∧ lost.step loadsAnswer true (.resume 1) = some ended ∧
      ∃ call : RpcCall, ended.calls[1]? = some call ∧ call.id = secondId ∧
        call.phase = .ended .cancelled := by
  refine ⟨callCancelled_reachable, rfl, by decide +kernel, ?_⟩
  refine ⟨(callCancelled.step loadsAnswer true (.endRead .closed)).get (by decide +kernel), ?_⟩
  refine ⟨((callCancelled.step loadsAnswer true (.endRead .closed)).get
    (by decide +kernel) |>.step loadsAnswer true (.resume 1)).get (by decide +kernel), ?_⟩
  refine ⟨(Option.some_get _).symm, rfl, (Option.some_get _).symm, ?_⟩
  exact ⟨⟨secondId, "queue_length", .ended .cancelled, .cancelled, true, some 0, none⟩,
    by rfl, rfl, rfl⟩

end Rpc
end Io
end ContestManagement
