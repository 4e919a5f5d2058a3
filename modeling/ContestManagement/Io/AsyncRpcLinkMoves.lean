import ContestManagement.Io.AsyncRpcLink

/-!
# What the client's side of a link keeps

A call keeps its id and its method, and once it has written its request it never waits for the lock
again; an answer that is processed says what its line says.
-/

namespace ContestManagement
namespace Io
namespace Rpc

open Lib

/-- What the other side may rely on of a call. -/
structure RpcCall.Steady (c d : RpcCall) : Prop where
  id : d.id = c.id
  method : d.method = c.method
  locking : d.phase.isLocking = true → c.phase.isLocking = true

namespace RpcCall

variable {c d e : RpcCall}

theorem Steady.refl (c : RpcCall) : Steady c c := ⟨rfl, rfl, fun h => h⟩

theorem Steady.trans (hcd : Steady c d) (hde : Steady d e) : Steady c e :=
  ⟨hde.id.trans hcd.id, hde.method.trans hcd.method, fun h => hcd.locking (hde.locking h)⟩

theorem Steady.setException (c : RpcCall) (error : PyValue) : Steady c (c.setException error) := by
  unfold RpcCall.setException
  split
  · exact ⟨rfl, rfl, fun h => h⟩
  · exact .refl c

theorem Steady.settle (c : RpcCall) (number : Nat) (future : Future) :
    Steady c (c.settle number future) := by
  unfold RpcCall.settle
  split
  · exact ⟨rfl, rfl, fun h => h⟩
  · exact .refl c

end RpcCall

namespace Client

variable {s t : Client} {loads : List UInt8 → Option PyValue} {autoRetry : Bool} {index : Nat}
  {c : RpcCall}

abbrev Steady : Client → Client → Prop := Along RpcCall.Steady

theorem Move.steady (hmove : Move s t) : Steady s t := by
  cases hmove with
  | frame hsame _ => exact along_of_calls .refl hsame.calls
  | opened hsame _ => exact along_of_calls .refl hsame.calls
  | note hsame _ => exact along_of_calls .refl hsame.calls
  | finalize reason =>
      intro index c hc
      refine ⟨_, getElem?_finalize hc reason, ?_⟩
      split
      · exact .setException c _
      · exact .refl c
  | finish hc _ _ _ _ => exact along_set .refl hc (calls_finish hc _ _) ⟨rfl, rfl, nofun⟩
  | drain hc _ _ =>
      rw [setPhase_of_some hc]
      exact along_set .refl hc rfl ⟨rfl, rfl, nofun⟩
  | await hc _ =>
      rw [setPhase_of_some hc]
      exact along_set .refl hc rfl ⟨rfl, rfl, nofun⟩
  | register _ _ => exact along_concat .refl rfl
  | reject _ => exact along_concat .refl (calls_reject _ _ _ _)
  | refuse _ _ _ _ => exact along_concat .refl rfl
  | cancel hc _ _ => exact along_set .refl hc rfl ⟨rfl, rfl, fun h => h⟩

theorem Moves.steady (hmoves : Moves s t) : Steady s t := by
  induction hmoves with
  | refl => exact along_of_calls .refl rfl
  | tail _ hmove ih => exact Along.trans .trans ih hmove.steady

theorem steady_settled (id : String) (data error : PyValue) (index : Nat) :
    Steady s (s.settled id data error index) := by
  intro place c hc
  refine ⟨_, Slots.getElem?_modify_of_some hc, ?_⟩
  split
  · exact .settle c _ _
  · exact .refl c

theorem Sound.steady (hs : s.Sound) {a : RpcAction} (hstep : s.step loads autoRetry a = some t) :
    Steady s t := by
  rcases step_cases hs hstep with ⟨u, id, data, error, index, hsame, -, -, rfl⟩ | hmoves
  · have hsettled : Steady u (u.settled id data error index) := steady_settled id data error index
    exact Along.trans .trans (along_of_calls .refl hsame.calls) hsettled
  · exact hmoves.steady

/-! ## A request that is written -/

theorem locking_finish (hc : s.calls[index]? = some c) (outcome : Outcome) (sent : Bool) :
    ∃ d, (s.finish index outcome sent).calls[index]? = some d ∧ d.phase.isLocking = false := by
  refine ⟨{ c with phase := .ended outcome }, ?_, rfl⟩
  rw [calls_finish hc, Slots.getElem?_set_of_some hc, if_pos rfl]

theorem locking_setPhase (hc : s.calls[index]? = some c) {phase : CallPhase}
    (hphase : phase.isLocking = false) :
    ∃ d, (s.setPhase index phase).calls[index]? = some d ∧ d.phase.isLocking = false := by
  refine ⟨{ c with phase }, ?_, hphase⟩
  rw [setPhase_of_some hc]
  dsimp only
  rw [Slots.getElem?_set_of_some hc, if_pos rfl]

theorem locking_failWrite (hc : s.calls[index]? = some c) :
    ∃ d, (s.failWrite index).calls[index]? = some d ∧ d.phase.isLocking = false :=
  locking_finish (getElem?_finalize hc _) _ _

theorem locking_awaitResult (hc : s.calls[index]? = some c) :
    ∃ d, (s.awaitResult index).calls[index]? = some d ∧ d.phase.isLocking = false := by
  unfold awaitResult
  rw [hc]
  dsimp only
  split
  · exact locking_setPhase hc rfl
  · exact locking_finish hc _ _
  · exact locking_finish hc _ _
  · exact locking_finish hc _ _

/-- A call that has had the lock does not wait for it. -/
theorem locking_write (hc : s.calls[index]? = some c) (drain : Drain) :
    ∃ d, (s.write index drain).calls[index]? = some d ∧ d.phase.isLocking = false := by
  unfold write
  split
  · exact locking_failWrite hc
  · cases drain with
    | done => exact locking_awaitResult hc
    | waits => exact locking_setPhase hc rfl
    | fails => exact locking_failWrite hc

theorem executeRpc_of_writesAtOnce {length : Nat} (hwrites : s.writesAtOnce length = true)
    (id method : String) (drain : Drain) : s.executeRpc id method (some length) drain =
      (s.register id method).write s.calls.length drain := by
  unfold writesAtOnce at hwrites
  rw [Bool.and_eq_true, Bool.not_eq_true', Bool.not_eq_true'] at hwrites
  unfold executeRpc
  dsimp only
  rw [hwrites.1, hwrites.2, if_neg Bool.false_ne_true, if_neg Bool.false_ne_true]

theorem call_written {id method : String} {length : Nat} {drain : Drain}
    (hstep : s.step loads autoRetry (.call id method (some length) drain) = some t)
    (hwrites : s.writesAtOnce length = true) :
    ∃ c, t.calls[s.calls.length]? = some c ∧ c.id = id ∧ c.method = method ∧
      c.phase.isLocking = false := by
  rw [step] at hstep
  split at hstep
  case isTrue => cases hstep
  case isFalse =>
    obtain rfl := Option.some.inj hstep
    rw [executeRpc_of_writesAtOnce hwrites]
    have hnew : (s.register id method).calls[s.calls.length]? =
        some ⟨id, method, .locking, .pending, false, s.connection, none⟩ :=
      Slots.getElem?_concat_length
    have hlocked : (s.register id method).locked = false := by
      unfold writesAtOnce at hwrites
      rw [Bool.and_eq_true, Bool.not_eq_true', Bool.not_eq_true'] at hwrites
      rw [locked_register]
      exact (Bool.or_eq_false_iff.1 hwrites.2).1
    have hgiven : Future.pending = .cancelled → false = true := by
      intro hcancelled
      cases hcancelled
    have hmoves := moves_write hnew rfl hgiven hlocked drain
    obtain ⟨c, hc, hsteady⟩ := hmoves.steady _ _ hnew
    obtain ⟨d, hd, hphase⟩ := locking_write hnew drain
    rw [hc, Option.some.injEq] at hd
    subst hd
    exact ⟨c, hc, hsteady.id, hsteady.method, hphase⟩

/-- A call has an id of its own. -/
theorem call_fresh {id method : String} {length : Option Nat} {drain : Drain}
    (hstep : s.step loads autoRetry (.call id method length drain) = some t) :
    ∀ c ∈ s.calls, c.id ≠ id := by
  rw [step] at hstep
  split at hstep
  case isTrue => cases hstep
  case isFalse hany =>
    intro c hc heq
    exact hany (List.any_eq_true.2 ⟨c, hc, decide_eq_true heq⟩)

/-- A call that gets the lock writes its request. -/
theorem call_acquired {drain : Drain} (hstep : s.step loads autoRetry (.acquire index drain) = some t) :
    (∃ c, s.calls[index]? = some c ∧ c.phase.isLocking = true) ∧
    ∃ d, t.calls[index]? = some d ∧ d.phase.isLocking = false := by
  rw [step] at hstep
  split at hstep
  case h_1 => cases hstep
  case h_2 c hc =>
    split at hstep
    case isFalse => cases hstep
    case isTrue hready =>
      obtain rfl := Option.some.inj hstep
      rw [Bool.and_eq_true, Bool.and_eq_true, RpcCall.isWaiting, Bool.and_eq_true] at hready
      exact ⟨⟨c, hc, hready.1.1.1⟩, locking_write hc drain⟩

/-! ## The answers -/

/-- No line is read, and no answer is processed. -/
structure Quiet (s t : Client) : Prop where
  answers : t.answers = s.answers
  processed : t.processed = s.processed

theorem Quiet.trans {u : Client} (hst : Quiet s t) (htu : Quiet t u) : Quiet s u :=
  ⟨htu.answers.trans hst.answers, htu.processed.trans hst.processed⟩

theorem quiet_finalize (reason : String) : Quiet s (s.finalize reason) := ⟨rfl, rfl⟩

theorem quiet_finish (outcome : Outcome) (sent : Bool) : Quiet s (s.finish index outcome sent) := by
  unfold finish
  split
  · exact ⟨rfl, rfl⟩
  · exact ⟨rfl, rfl⟩

theorem quiet_failWrite : Quiet s (s.failWrite index) :=
  (quiet_finalize _).trans (quiet_finish _ _)

theorem quiet_awaitResult : Quiet s (s.awaitResult index) := by
  unfold awaitResult
  split
  · exact ⟨rfl, rfl⟩
  · split
    · exact ⟨rfl, rfl⟩
    · exact quiet_finish _ _
    · exact quiet_finish _ _
    · exact quiet_finish _ _

theorem quiet_write (drain : Drain) : Quiet s (s.write index drain) := by
  unfold write
  split
  · exact quiet_failWrite
  · cases drain with
    | done => exact quiet_awaitResult
    | waits => exact ⟨rfl, rfl⟩
    | fails => exact quiet_failWrite

theorem quiet_executeRpc (id method : String) (length : Option Nat) (drain : Drain) :
    Quiet s (s.executeRpc id method length drain) := by
  have hregister : Quiet s (s.register id method) := ⟨rfl, rfl⟩
  unfold executeRpc
  split
  · exact ⟨rfl, rfl⟩
  · split
    · exact hregister.trans (quiet_finish _ _)
    · split
      · exact hregister
      · exact hregister.trans (quiet_write drain)

theorem quiet_endRun : Quiet s (s.endRun autoRetry) := ⟨rfl, rfl⟩

theorem quiet_dropConnection (reason : String) : Quiet s (s.dropConnection reason) := by
  unfold dropConnection
  split
  · exact ⟨rfl, rfl⟩
  · exact quiet_finalize reason

theorem quiet_step {a : RpcAction} (hstep : s.step loads autoRetry a = some t)
    (hread : ∀ data, a ≠ .readLine data) (hprocess : ∀ place, a ≠ .process place) : Quiet s t := by
  cases a with
  | connect =>
      rw [step] at hstep
      split at hstep
      · obtain rfl := Option.some.inj hstep
        exact ⟨rfl, rfl⟩
      · cases hstep
  | disconnect =>
      rw [step] at hstep
      split at hstep
      · cases hstep
      · obtain rfl := Option.some.inj hstep
        exact ⟨rfl, rfl⟩
  | tryConnection ok =>
      rw [step] at hstep
      split at hstep
      · split at hstep
        · split at hstep
          · obtain rfl := Option.some.inj hstep
            exact ⟨rfl, rfl⟩
          · obtain rfl := Option.some.inj hstep
            exact ⟨rfl, rfl⟩
        · obtain rfl := Option.some.inj hstep
          exact quiet_endRun
      · cases hstep
  | readLine data => exact absurd rfl (hread data)
  | endRead how =>
      simp only [step] at hstep
      split at hstep
      · obtain rfl := Option.some.inj hstep
        refine Quiet.trans ?_ quiet_endRun
        split
        · exact quiet_finalize _
        · exact (quiet_finalize _).trans (quiet_finalize _)
        · exact quiet_finalize _
      · cases hstep
  | process place => exact absurd rfl (hprocess place)
  | call id method length drain =>
      rw [step] at hstep
      split at hstep
      · cases hstep
      · obtain rfl := Option.some.inj hstep
        exact quiet_executeRpc id method length drain
  | acquire index drain =>
      rw [step] at hstep
      split at hstep
      · cases hstep
      · split at hstep
        · obtain rfl := Option.some.inj hstep
          exact quiet_write drain
        · cases hstep
  | drained index ok =>
      rw [step] at hstep
      split at hstep
      · cases hstep
      · split at hstep
        · obtain rfl := Option.some.inj hstep
          cases ok with
          | true => exact quiet_awaitResult
          | false => exact quiet_failWrite
        · cases hstep
  | resume index =>
      rw [step] at hstep
      split at hstep
      · cases hstep
      · split at hstep
        · cases hstep
        · split at hstep
          · obtain rfl := Option.some.inj hstep
            exact quiet_finish _ _
          · split at hstep
            · cases hstep
            · obtain rfl := Option.some.inj hstep
              exact quiet_awaitResult
            · cases hstep
  | cancel index =>
      rw [step] at hstep
      split at hstep
      · cases hstep
      · split at hstep
        · cases hstep
        · obtain rfl := Option.some.inj hstep
          exact ⟨rfl, rfl⟩

/-- A line says what an answer says. -/
def Says (loads : List UInt8 → Option PyValue) (line : List UInt8) (entry : Processed) : Prop :=
  ∃ response, loads line = some response ∧ response.get? "__id" = some (.str entry.id) ∧
    response.get? "__data" = some entry.data ∧ response.get? "__error" = some entry.error

theorem processed_processIncomingResponse (response : PyValue) :
    (s.processIncomingResponse response).answers = s.answers ∧
    ((s.processIncomingResponse response).processed = s.processed ∨
      ∃ entry : Processed, response.get? "__id" = some (.str entry.id) ∧
        response.get? "__data" = some entry.data ∧ response.get? "__error" = some entry.error ∧
        (s.processIncomingResponse response).processed = s.processed ++ [entry]) := by
  unfold processIncomingResponse
  split
  case h_1 id data error hid hdata herror =>
    have hnote : (s.note id data error).processed =
        s.processed ++ [⟨id, data, error, s.pendingOutgoingRequests.keys⟩] := rfl
    split
    · exact ⟨rfl, Or.inr ⟨_, hid, hdata, herror, hnote⟩⟩
    · split
      · have hquiet := quiet_dropConnection (s := { s.note id data error with
          pendingOutgoingRequests := s.pendingOutgoingRequests.erase id }) "Bad response received"
        exact ⟨hquiet.answers, Or.inr ⟨_, hid, hdata, herror, hquiet.processed.trans hnote⟩⟩
      · exact ⟨rfl, Or.inr ⟨_, hid, hdata, herror, hnote⟩⟩
  case h_2 =>
    have hquiet := quiet_dropConnection (s := s) "Bad response received"
    exact ⟨hquiet.answers, Or.inl hquiet.processed⟩

/-- An answer that is processed says what its line says. -/
theorem processed_step {place : Nat} (hstep : s.step loads autoRetry (.process place) = some t) :
    ∃ answer, s.answers[place]? = some answer ∧ t.answers = s.answers.eraseIdx place ∧
      (t.processed = s.processed ∨
        ∃ entry, Says loads answer.data entry ∧ t.processed = s.processed ++ [entry]) := by
  rw [step] at hstep
  split at hstep
  case h_1 => cases hstep
  case h_2 answer hanswer =>
    obtain rfl := Option.some.inj hstep
    refine ⟨answer, hanswer, ?_⟩
    unfold processData
    split
    · exact ⟨rfl, Or.inl rfl⟩
    · split
      · have hquiet := quiet_dropConnection (s := { s with answers := s.answers.eraseIdx place })
          "Bad response received"
        exact ⟨hquiet.answers, Or.inl hquiet.processed⟩
      · rename_i response hload
        obtain ⟨hanswers, hprocessed⟩ := processed_processIncomingResponse
          (s := { s with answers := s.answers.eraseIdx place }) response
        refine ⟨hanswers, ?_⟩
        rcases hprocessed with hsame | ⟨entry, hid, hdata, herror, hnew⟩
        · exact Or.inl hsame
        · exact Or.inr ⟨entry, ⟨response, hload, hid, hdata, herror⟩, hnew⟩

/-- A line that is read comes from the connection that is read. -/
theorem answers_step {data : List UInt8} (hstep : s.step loads autoRetry (.readLine data) = some t) :
    ∃ reader source, s.loop = .reading reader source ∧
      t.answers = s.answers ++ [⟨data, reader, source⟩] ∧ t.processed = s.processed := by
  rw [step] at hstep
  split at hstep
  case h_2 => cases hstep
  case h_1 reader source hloop =>
    obtain rfl := Option.some.inj hstep
    refine ⟨reader, source, hloop, ?_⟩
    unfold readNext
    split
    · exact ⟨rfl, rfl⟩
    · exact ⟨rfl, rfl⟩

end Client

end Rpc
end Io
end ContestManagement
