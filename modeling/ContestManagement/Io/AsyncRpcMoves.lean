import Mathlib.Logic.Relation
import ContestManagement.Io.AsyncRpcInvariant

/-!
# What a step of a client is made of

Whatever a coroutine does between two of its `await`s is a sequence of a few moves, or an answer
that settles the call it belongs to.
-/

namespace ContestManagement
namespace Io
namespace Rpc

open Lib

theorem CallPhase.isEnded_of_isDraining {phase : CallPhase} (h : phase.isDraining = true) :
    phase.isEnded = false := by
  cases phase with
  | draining => rfl
  | _ => cases h

theorem RpcCall.isEnded_of_isWaiting {c : RpcCall} (h : c.isWaiting = true) :
    c.phase.isEnded = false := by
  unfold RpcCall.isWaiting at h
  cases hphase : c.phase with
  | ended outcome =>
      rw [hphase] at h
      cases h
  | _ => rfl

namespace Client

/-- The dictionaries, the calls and the answers that were processed stay as they are. -/
structure SameCalls (s t : Client) : Prop where
  requests : t.pendingOutgoingRequests = s.pendingOutgoingRequests
  results : t.pendingOutgoingRequestsResults = s.pendingOutgoingRequestsResults
  calls : t.calls = s.calls
  processed : t.processed = s.processed

inductive Move (s : Client) : Client → Prop
  /-- Something else changes. -/
  | frame {t : Client} : SameCalls s t → t.connection = s.connection → Move s t
  | opened {t : Client} : SameCalls s t → s.connection = none → Move s t
  /-- An answer that no call waits for is processed. -/
  | note {t : Client} {entry : Processed} :
      SameCalls { s with processed := s.processed ++ [entry] } t → t.connection = s.connection →
      Move s t
  | finalize (reason : String) : Move s (s.finalize reason)
  | finish {index : Nat} {c : RpcCall} {outcome : Outcome} {sent : Bool} :
      s.calls[index]? = some c → c.phase.isEnded = false →
      (∀ data, outcome = .value data → c.future = .result data) →
      (outcome = .cancelled → c.cancelling = true) →
      (∀ error, c.future = .exception error → outcome ≠ .cancelled → ∃ e, outcome = .rpcError e) →
      Move s (s.finish index outcome sent)
  | drain {index : Nat} {c : RpcCall} : s.calls[index]? = some c → c.phase.isEnded = false →
      s.locked = false → Move s (s.setPhase index .draining)
  | await {index : Nat} {c : RpcCall} : s.calls[index]? = some c → c.phase.isEnded = false →
      Move s (s.setPhase index .awaiting)
  | register {id method : String} : (∀ c ∈ s.calls, c.id ≠ id) → s.connection.isSome = true →
      Move s (s.register id method)
  /-- A call that is registered and fails at once. -/
  | reject {id method : String} {error : PyValue} : (∀ c ∈ s.calls, c.id ≠ id) →
      Move s ((s.register id method).finish s.calls.length (.rpcError error) false)
  /-- A call that fails before it is registered. -/
  | refuse {c : RpcCall} {error : PyValue} : (∀ d ∈ s.calls, d.id ≠ c.id) →
      c.phase = .ended (.rpcError error) → c.future = .pending → c.answer = none →
      Move s { s with calls := s.calls ++ [c] }
  | cancel {index : Nat} {c : RpcCall} {future : Future} : s.calls[index]? = some c →
      c.phase.isEnded = false →
      (future = c.future ∨ c.future = .pending ∧ future = .cancelled) →
      Move s { s with calls := s.calls.set index { c with cancelling := true, future } }

/-- Some moves, one after the other. -/
abbrev Moves : Client → Client → Prop := Relation.ReflTransGen Move

variable {s t : Client} {index : Nat} {c : RpcCall}

/-! ## The operations are made of moves -/

theorem moves_failWrite (hc : s.calls[index]? = some c) (hopen : c.phase.isEnded = false) :
    Moves s (s.failWrite index) := by
  obtain ⟨d, hd, hphase⟩ : ∃ d, (s.finalize "Write failed.").calls[index]? = some d ∧
      d.phase = c.phase := by
    refine ⟨_, getElem?_finalize hc "Write failed.", ?_⟩
    split
    · exact RpcCall.setException_phase
    · rfl
  rw [← hphase] at hopen
  refine (Relation.ReflTransGen.single (Move.finalize "Write failed.")).tail ?_
  refine Move.finish hd hopen ?_ ?_ ?_
  · rintro data ⟨⟩
  · rintro ⟨⟩
  · exact fun _ _ _ => ⟨_, rfl⟩

theorem moves_awaitResult (hc : s.calls[index]? = some c) (hopen : c.phase.isEnded = false)
    (hgiven : c.future = .cancelled → c.cancelling = true) : Moves s (s.awaitResult index) := by
  refine Relation.ReflTransGen.single ?_
  unfold awaitResult
  rw [hc]
  dsimp only
  split
  · exact Move.await hc hopen
  · rename_i data hfuture
    refine Move.finish hc hopen ?_ ?_ ?_
    · rintro value ⟨⟩
      exact hfuture
    · rintro ⟨⟩
    · intro error herror
      rw [hfuture] at herror
      cases herror
  · rename_i error hfuture
    refine Move.finish hc hopen ?_ ?_ ?_
    · rintro value ⟨⟩
    · rintro ⟨⟩
    · exact fun _ _ _ => ⟨_, rfl⟩
  · rename_i hfuture
    refine Move.finish hc hopen ?_ (fun _ => hgiven hfuture) ?_
    · rintro value ⟨⟩
    · exact fun _ _ hne => absurd rfl hne

theorem moves_write (hc : s.calls[index]? = some c) (hopen : c.phase.isEnded = false)
    (hgiven : c.future = .cancelled → c.cancelling = true) (hlocked : s.locked = false)
    (drain : Drain) : Moves s (s.write index drain) := by
  unfold write
  split
  · exact moves_failWrite hc hopen
  · cases drain with
    | done => exact moves_awaitResult hc hopen hgiven
    | waits => exact Relation.ReflTransGen.single (Move.drain hc hopen hlocked)
    | fails => exact moves_failWrite hc hopen

theorem locked_register (id method : String) : (s.register id method).locked = s.locked := by
  unfold locked register
  rw [List.any_append]
  simp [CallPhase.isDraining]

theorem moves_executeRpc {id : String} (hfresh : ∀ c ∈ s.calls, c.id ≠ id) (method : String)
    (length : Option Nat) (drain : Drain) : Moves s (s.executeRpc id method length drain) := by
  cases length with
  | none => exact Relation.ReflTransGen.single (Move.refuse hfresh rfl rfl rfl)
  | some length =>
      unfold executeRpc
      dsimp only
      split
      · exact Relation.ReflTransGen.single (Move.reject hfresh)
      · rename_i hready
        have hconnected : s.connection.isSome = true := by
          cases hconnection : s.connection with
          | none => simp [hconnection] at hready
          | some reader => rfl
        have hregister : Moves s (s.register id method) :=
          Relation.ReflTransGen.single (Move.register hfresh hconnected)
        split
        · exact hregister
        · rename_i hlock
          rw [Bool.or_eq_true, not_or, Bool.not_eq_true, Bool.not_eq_true] at hlock
          refine hregister.trans (moves_write Slots.getElem?_concat_length rfl ?_ ?_ drain)
          · rintro ⟨⟩
          · rw [locked_register]
            exact hlock.1

theorem moves_dropConnection (reason : String) : Moves s (s.dropConnection reason) := by
  unfold dropConnection
  split
  · exact Relation.ReflTransGen.refl
  · exact Relation.ReflTransGen.single (Move.finalize reason)

theorem SameCalls.frame (h : SameCalls s t) (hconnection : t.connection = s.connection) :
    Moves s t :=
  Relation.ReflTransGen.single (Move.frame h hconnection)

/-- A response settles the call it belongs to, or is made of moves. -/
theorem processIncomingResponse_cases (hs : s.Sound) (response : PyValue) :
    (∃ id data error index, s.pendingOutgoingRequestsResults.get? id = some index ∧
      s.processIncomingResponse response = s.settled id data error index) ∨
    Moves s (s.processIncomingResponse response) := by
  unfold processIncomingResponse
  split
  · rename_i id data error _ _ _
    split
    · right
      have hsame : SameCalls (s.note id data error)
          { s.note id data error with abandoned := s.abandoned.erase id } := ⟨rfl, rfl, rfl, rfl⟩
      exact Relation.ReflTransGen.single (Move.note hsame rfl)
    · rename_i method hmethod
      split
      · rename_i hnone
        have hsame := hs.same id
        rw [hmethod, hnone] at hsame
        cases hsame
      · rename_i index hindex
        exact Or.inl ⟨id, data, error, index, hindex, rfl⟩
  · exact Or.inr (moves_dropConnection _)

theorem processData_cases (hs : s.Sound) (loads : List UInt8 → Option PyValue) (answer : Answer) :
    (∃ id data error index, s.connection = some answer.reader ∧
      s.pendingOutgoingRequestsResults.get? id = some index ∧
      processData loads s answer = s.settled id data error index) ∨
    Moves s (processData loads s answer) := by
  unfold processData
  split
  · exact Or.inr Relation.ReflTransGen.refl
  · rename_i hconnection
    rw [not_not] at hconnection
    split
    · exact Or.inr (moves_dropConnection _)
    · rename_i message _
      rcases processIncomingResponse_cases hs message with ⟨id, data, error, index, hget, heq⟩ | hmoves
      · exact Or.inl ⟨id, data, error, index, hconnection, hget, heq⟩
      · exact Or.inr hmoves

/-- All that a step can do to the calls. -/
theorem step_cases {loads : List UInt8 → Option PyValue} {autoRetry : Bool} {a : RpcAction}
    (hs : s.Sound) (h : s.step loads autoRetry a = some t) :
    (∃ u id data error index, SameCalls s u ∧ u.connection = s.connection ∧
      u.pendingOutgoingRequestsResults.get? id = some index ∧
      t = u.settled id data error index) ∨ Moves s t := by
  cases a with
  | connect =>
      right
      simp only [step] at h
      split at h
      · cases h
        exact SameCalls.frame ⟨rfl, rfl, rfl, rfl⟩ rfl
      · cases h
  | disconnect =>
      right
      simp only [step] at h
      split at h
      · cases h
      · cases h
        refine (Relation.ReflTransGen.single (Move.finalize "Disconnection requested.")).trans ?_
        exact SameCalls.frame ⟨rfl, rfl, rfl, rfl⟩ rfl
  | tryConnection ok =>
      right
      simp only [step] at h
      split at h
      · split at h
        · split at h
          · rename_i hconnection
            cases h
            exact Relation.ReflTransGen.single (Move.opened ⟨rfl, rfl, rfl, rfl⟩ hconnection)
          · cases h
            exact SameCalls.frame ⟨rfl, rfl, rfl, rfl⟩ rfl
        · cases h
          exact SameCalls.frame ⟨rfl, rfl, rfl, rfl⟩ rfl
      · cases h
  | readLine data =>
      right
      simp only [step] at h
      split at h
      · cases h
        unfold readNext
        split
        · exact SameCalls.frame ⟨rfl, rfl, rfl, rfl⟩ rfl
        · exact SameCalls.frame ⟨rfl, rfl, rfl, rfl⟩ rfl
      · cases h
  | endRead how =>
      right
      simp only [step] at h
      split at h
      · rw [Option.some.injEq] at h
        subst h
        have hend : ∀ u : Client, Moves s u → Moves s (u.endRun autoRetry) := fun u hu =>
          hu.trans (SameCalls.frame ⟨rfl, rfl, rfl, rfl⟩ rfl)
        refine hend _ ?_
        split
        · exact Relation.ReflTransGen.single (Move.finalize _)
        · exact (Relation.ReflTransGen.single (Move.finalize _)).tail (Move.finalize _)
        · exact Relation.ReflTransGen.single (Move.finalize _)
      · cases h
  | process index =>
      simp only [step] at h
      split at h
      · cases h
      · rename_i answer _
        rw [Option.some.injEq] at h
        subst h
        have hsame : SameCalls s { s with answers := s.answers.eraseIdx index } :=
          ⟨rfl, rfl, rfl, rfl⟩
        have hsound := hs.congr hsame.requests hsame.results hsame.calls hsame.processed
        rcases processData_cases hsound loads answer with
          ⟨id, data, error, place, -, hget, heq⟩ | hmoves
        · exact Or.inl ⟨_, id, data, error, place, hsame, rfl, hget, heq⟩
        · exact Or.inr ((SameCalls.frame hsame rfl).trans hmoves)
  | call id method length drain =>
      right
      simp only [step] at h
      split at h
      · cases h
      · rename_i hfresh
        cases h
        refine moves_executeRpc (fun c hc heq => hfresh ?_) method length drain
        rw [List.any_eq_true]
        exact ⟨c, hc, by simpa using heq⟩
  | acquire index drain =>
      right
      simp only [step] at h
      split at h
      · cases h
      · rename_i c hc
        split at h
        · rename_i hready
          cases h
          rw [Bool.and_eq_true, Bool.and_eq_true, Bool.not_eq_true'] at hready
          exact moves_write hc (RpcCall.isEnded_of_isWaiting hready.1.1)
            (hs.calls index c hc).given hready.1.2 drain
        · cases h
  | drained index ok =>
      right
      simp only [step] at h
      split at h
      · cases h
      · rename_i c hc
        split at h
        · rename_i hready
          cases h
          rw [Bool.and_eq_true] at hready
          have hopen := CallPhase.isEnded_of_isDraining hready.1
          cases ok with
          | true => exact moves_awaitResult hc hopen (hs.calls index c hc).given
          | false => exact moves_failWrite hc hopen
        · cases h
  | resume index =>
      right
      simp only [step] at h
      split at h
      · cases h
      · rename_i c hc
        split at h
        · cases h
        · rename_i hopen
          rw [Bool.not_eq_true] at hopen
          split at h
          · rename_i hcancelling
            cases h
            refine Relation.ReflTransGen.single (Move.finish hc hopen ?_ (fun _ => hcancelling) ?_)
            · rintro data ⟨⟩
            · exact fun _ _ hne => absurd rfl hne
          · split at h
            · cases h
            · cases h
              exact moves_awaitResult hc hopen (hs.calls index c hc).given
            · cases h
  | cancel index =>
      right
      simp only [step] at h
      split at h
      · cases h
      · rename_i c hc
        split at h
        · cases h
        · rename_i hopen
          rw [Bool.not_eq_true] at hopen
          cases h
          refine Relation.ReflTransGen.single (Move.cancel hc hopen ?_)
          split
          · rename_i hpending
            exact Or.inr ⟨hpending, rfl⟩
          · exact Or.inl rfl

end Client

end Rpc
end Io
end ContestManagement
