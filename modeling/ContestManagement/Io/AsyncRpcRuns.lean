import ContestManagement.Io.AsyncRpcMoves

/-!
# The invariants along a run

Every move keeps the invariants: the dictionaries agree with the calls, a registered call was made
on the current connection, and the write lock has at most one holder.  What a call has does not
change any more once its future is done, and nothing of it changes once it is over.
-/

namespace ContestManagement
namespace Io
namespace Rpc

open Lib

namespace RpcCall

/-- How a call may change in a run. -/
structure Evolves (c d : RpcCall) : Prop where
  id : d.id = c.id
  madeOn : d.madeOn = c.madeOn
  future : c.future ≠ .pending → d.future = c.future
  cancelling : c.cancelling = true → d.cancelling = true
  ended : c.phase.isEnded = true → d = c

theorem Evolves.refl (c : RpcCall) : Evolves c c := ⟨rfl, rfl, fun _ => rfl, fun h => h, fun _ => rfl⟩

theorem Evolves.trans {c d e : RpcCall} (hcd : Evolves c d) (hde : Evolves d e) : Evolves c e := by
  refine ⟨hde.id.trans hcd.id, hde.madeOn.trans hcd.madeOn, ?_, ?_, ?_⟩
  · intro hne
    have hfuture := hcd.future hne
    exact (hde.future (by rw [hfuture]; exact hne)).trans hfuture
  · exact fun h => hde.cancelling (hcd.cancelling h)
  · intro hended
    have hsame := hcd.ended hended
    rw [hde.ended (by rw [hsame]; exact hended), hsame]

theorem Evolves.setException {c : RpcCall} (hopen : c.phase.isEnded = false) (error : PyValue) :
    Evolves c (c.setException error) := by
  refine ⟨setException_id, setException_madeOn, ?_, ?_, ?_⟩
  · intro hne
    rw [setException_of_ne hne]
  · intro h
    rw [setException_cancelling]
    exact h
  · intro hended
    rw [hopen] at hended
    cases hended

theorem Evolves.settle {c : RpcCall} (hopen : c.phase.isEnded = false) (number : Nat)
    (future : Future) : Evolves c (c.settle number future) := by
  refine ⟨settle_id, settle_madeOn, ?_, ?_, ?_⟩
  · intro hne
    rw [settle_of_ne hne]
  · intro h
    rw [settle_cancelling]
    exact h
  · intro hended
    rw [hopen] at hended
    cases hended

theorem Evolves.setPhase {c : RpcCall} (hopen : c.phase.isEnded = false) (phase : CallPhase) :
    Evolves c { c with phase } := by
  refine ⟨rfl, rfl, fun _ => rfl, fun h => h, ?_⟩
  intro hended
  rw [hopen] at hended
  cases hended

end RpcCall

namespace Client

/-- The calls that there are stay, and change by a relation. -/
def Along (R : RpcCall → RpcCall → Prop) (s t : Client) : Prop :=
  ∀ (index : Nat) (c : RpcCall), s.calls[index]? = some c → ∃ d, t.calls[index]? = some d ∧ R c d

section Along

variable {R : RpcCall → RpcCall → Prop} {s t u : Client}

theorem Along.trans (hR : ∀ {c d e}, R c d → R d e → R c e) (hst : Along R s t)
    (htu : Along R t u) : Along R s u := by
  intro index c hc
  obtain ⟨d, hd, hcd⟩ := hst index c hc
  obtain ⟨e, he, hde⟩ := htu index d hd
  exact ⟨e, he, hR hcd hde⟩

variable (hR : ∀ c, R c c)

include hR

theorem along_of_calls (h : t.calls = s.calls) : Along R s t := by
  intro index c hc
  rw [← h] at hc
  exact ⟨c, hc, hR c⟩

theorem along_concat {new : RpcCall} (h : t.calls = s.calls ++ [new]) : Along R s t := by
  intro index c hc
  refine ⟨c, ?_, hR c⟩
  rw [h]
  exact Slots.getElem?_concat_of_some hc

theorem along_set {index : Nat} {c d : RpcCall} (hc : s.calls[index]? = some c)
    (h : t.calls = s.calls.set index d) (hcd : R c d) : Along R s t := by
  intro place e he
  rw [h, Slots.getElem?_set_of_some hc]
  split
  · rename_i hplace
    rw [hplace, hc, Option.some.injEq] at he
    subst he
    exact ⟨d, rfl, hcd⟩
  · exact ⟨e, he, hR e⟩

end Along

/-- The calls that there are stay, and change as calls may. -/
abbrev Kept : Client → Client → Prop := Along RpcCall.Evolves

theorem Kept.refl (s : Client) : Kept s s := along_of_calls .refl rfl

variable {s t u : Client}

theorem Kept.trans (hst : Kept s t) (htu : Kept t u) : Kept s u := Along.trans .trans hst htu

theorem kept_finalize (hs : s.Sound) (reason : String) : Kept s (s.finalize reason) := by
  intro index c hc
  refine ⟨_, getElem?_finalize hc reason, ?_⟩
  split
  · rename_i hmem
    obtain ⟨d, hd, -, hopen, -⟩ := hs.registered _ _ ((hs.mem_values hc).1 hmem)
    rw [hc, Option.some.injEq] at hd
    subst hd
    exact .setException hopen _
  · exact .refl c

theorem kept_settled (hs : s.Sound) {id : String} {index : Nat}
    (hget : s.pendingOutgoingRequestsResults.get? id = some index) (data error : PyValue) :
    Kept s (s.settled id data error index) := by
  obtain ⟨c, hc, -, hopen, -⟩ := hs.registered id index hget
  intro place d hd
  change ∃ e, (List.modify _ _ _)[place]? = some e ∧ _
  rw [List.getElem?_modify, hd]
  refine ⟨_, rfl, ?_⟩
  dsimp only
  split
  · rename_i hplace
    rw [← hplace, hc, Option.some.injEq] at hd
    subst hd
    exact .settle hopen _ _
  · exact .refl d

theorem calls_finish {index : Nat} {c : RpcCall} (hc : s.calls[index]? = some c) (outcome : Outcome)
    (sent : Bool) :
    (s.finish index outcome sent).calls = s.calls.set index { c with phase := .ended outcome } := by
  rw [finish_of_some hc]

theorem calls_reject (id method : String) (outcome : Outcome) (sent : Bool) :
    ((s.register id method).finish s.calls.length outcome sent).calls =
      s.calls ++ [⟨id, method, .ended outcome, .pending, false, s.connection, none⟩] := by
  rw [calls_finish Slots.getElem?_concat_length]
  change (s.calls ++ [_]).set s.calls.length _ = _
  rw [List.set_append_right _ _ (Nat.le_refl _), Nat.sub_self]
  rfl

theorem Move.kept (hs : s.Sound) (h : Move s t) : Kept s t := by
  cases h with
  | frame hsame _ => exact along_of_calls .refl hsame.calls
  | opened hsame _ => exact along_of_calls .refl hsame.calls
  | note hsame _ => exact along_of_calls .refl hsame.calls
  | finalize reason => exact kept_finalize hs reason
  | finish hc hopen _ _ _ => exact along_set .refl hc (calls_finish hc _ _) (.setPhase hopen _)
  | drain hc hopen _ =>
      rw [setPhase_of_some hc]
      exact along_set .refl hc rfl (.setPhase hopen _)
  | await hc hopen =>
      rw [setPhase_of_some hc]
      exact along_set .refl hc rfl (.setPhase hopen _)
  | register _ _ => exact along_concat .refl rfl
  | reject _ => exact along_concat .refl (calls_reject _ _ _ _)
  | refuse _ _ _ _ => exact along_concat .refl rfl
  | cancel hc hopen hfuture =>
      refine along_set .refl hc rfl ⟨rfl, rfl, ?_, fun _ => rfl, ?_⟩
      · intro hne
        rcases hfuture with hsame | ⟨hpending, -⟩
        · exact hsame
        · exact absurd hpending hne
      · intro hended
        rw [hopen] at hended
        cases hended

theorem Move.sound (hs : s.Sound) (h : Move s t) : t.Sound := by
  cases h with
  | frame hsame _ => exact hs.congr hsame.requests hsame.results hsame.calls hsame.processed
  | opened hsame _ => exact hs.congr hsame.requests hsame.results hsame.calls hsame.processed
  | note hsame _ =>
      exact (hs.concat_processed _).congr hsame.requests hsame.results hsame.calls hsame.processed
  | finalize reason => exact hs.finalize reason
  | finish hc _ hvalue hcancelled _ => exact hs.finish hc hvalue hcancelled
  | drain hc hopen _ => exact hs.setPhase hc hopen rfl
  | await hc hopen => exact hs.setPhase hc hopen rfl
  | register hfresh _ => exact hs.register hfresh
  | reject hfresh =>
      refine (hs.register hfresh).finish Slots.getElem?_concat_length ?_ ?_
      · rintro data ⟨⟩
      · rintro ⟨⟩
  | refuse hfresh hphase hfuture hanswer =>
      refine hs.concat_ended hfresh (by rw [hphase]; rfl) ?_
      constructor
      · intro data hdata
        rw [hfuture] at hdata
        cases hdata
      · intro number hnumber
        rw [hanswer] at hnumber
        cases hnumber
      · intro data hdata
        rw [hphase] at hdata
        cases hdata
      · intro hcancelled
        rw [hphase] at hcancelled
        cases hcancelled
      · intro hcancelled
        rw [hfuture] at hcancelled
        cases hcancelled
  | cancel hc hopen hfuture =>
      have hsound := hs.calls _ _ hc
      refine hs.setCall hc hopen rfl hopen rfl hfuture ?_
      rcases hfuture with rfl | ⟨-, rfl⟩
      · exact ⟨hsound.result, hsound.answered, hsound.value, fun _ => rfl, fun _ => rfl⟩
      · constructor
        case result =>
          intro data hdata
          cases hdata
        case answered => exact hsound.answered
        case value =>
          intro data hdata
          dsimp only at hdata
          rw [hdata] at hopen
          cases hopen
        case cancelled => exact fun _ => rfl
        case given => exact fun _ => rfl

/-! ## Registered calls were made on the current connection -/

def Current (s : Client) : Prop :=
  ∀ id index, s.pendingOutgoingRequestsResults.get? id = some index →
    s.connection.isSome = true ∧ ∃ c, s.calls[index]? = some c ∧ c.madeOn = s.connection

/-- No call is registered that was not, and the connection is the same. -/
theorem Current.kept (h : s.Current) (hkept : Kept s t) (hconnection : t.connection = s.connection)
    (hresults : ∀ id index, t.pendingOutgoingRequestsResults.get? id = some index →
      s.pendingOutgoingRequestsResults.get? id = some index) : t.Current := by
  intro id index hget
  obtain ⟨hconnected, c, hc, hmade⟩ := h id index (hresults id index hget)
  obtain ⟨d, hd, hevolves⟩ := hkept index c hc
  rw [hconnection]
  exact ⟨hconnected, d, hd, hevolves.madeOn.trans hmade⟩

theorem of_get?_erase_eq_some {κ β : Type} [DecidableEq κ] {d : Dict κ β} {key other : κ} {value : β}
    (h : (d.erase key).get? other = some value) : d.get? other = some value := by
  rw [Dict.get?_erase] at h
  split at h
  · cases h
  · exact h

theorem Move.current (hs : s.Sound) (h : s.Current) (hmove : Move s t) : t.Current := by
  have hkept := hmove.kept hs
  cases hmove with
  | frame hsame hconnection =>
      refine h.kept hkept hconnection ?_
      rw [hsame.results]
      exact fun _ _ hget => hget
  | opened hsame hconnection =>
      intro id index hget
      rw [hsame.results] at hget
      have hconnected := (h id index hget).1
      rw [hconnection] at hconnected
      cases hconnected
  | note hsame hconnection =>
      refine h.kept hkept hconnection ?_
      rw [hsame.results]
      exact fun _ _ hget => hget
  | finalize reason =>
      intro id index hget
      cases hget
  | finish hc _ _ _ _ =>
      refine h.kept hkept (by rw [finish_of_some hc]) ?_
      rw [finish_of_some hc]
      exact fun _ _ hget => of_get?_erase_eq_some hget
  | drain _ _ _ => exact h.kept hkept rfl fun _ _ hget => hget
  | await _ _ => exact h.kept hkept rfl fun _ _ hget => hget
  | register _ hconnected =>
      intro other index hget
      change (Dict.set _ _ _).get? other = some index at hget
      rw [Dict.get?_set] at hget
      split at hget
      · rw [Option.some.injEq] at hget
        subst hget
        exact ⟨hconnected, _, Slots.getElem?_concat_length, rfl⟩
      · obtain ⟨_, c, hc, hmade⟩ := h other index hget
        exact ⟨hconnected, c, Slots.getElem?_concat_of_some hc, hmade⟩
  | @reject id method error _ =>
      have hnew : (s.register id method).calls[s.calls.length]? =
          some ⟨id, method, .locking, .pending, false, s.connection, none⟩ :=
        Slots.getElem?_concat_length
      refine h.kept hkept (by rw [finish_of_some hnew]; rfl) ?_
      rw [finish_of_some hnew]
      intro other index hget
      change ((Dict.set _ _ _).erase id).get? other = some index at hget
      rw [Dict.get?_erase] at hget
      split at hget
      · cases hget
      · rename_i hne
        rw [Dict.get?_set, if_neg hne] at hget
        exact hget
  | refuse _ _ _ _ => exact h.kept hkept rfl fun _ _ hget => hget
  | cancel _ _ _ => exact h.kept hkept rfl fun _ _ hget => hget

/-! ## The write lock has one holder -/

def Exclusive (s : Client) : Prop :=
  ∀ (first second : Nat) (c d : RpcCall), s.calls[first]? = some c → s.calls[second]? = some d →
    c.phase.isDraining = true → d.phase.isDraining = true → first = second

/-- A holder of the lock in the new state had it in the old one. -/
def NoNewHolder (s t : Client) : Prop :=
  ∀ (index : Nat) (d : RpcCall), t.calls[index]? = some d → d.phase.isDraining = true →
    ∃ c, s.calls[index]? = some c ∧ c.phase.isDraining = true

theorem Exclusive.kept (h : s.Exclusive) (hold : NoNewHolder s t) : t.Exclusive := by
  intro first second c d hc hd hdraining hdraining'
  obtain ⟨c', hc', hphase⟩ := hold first c hc hdraining
  obtain ⟨d', hd', hphase'⟩ := hold second d hd hdraining'
  exact h first second c' d' hc' hd' hphase hphase'

theorem noNewHolder_of_calls (h : t.calls = s.calls) : NoNewHolder s t := by
  intro index d hd hdraining
  rw [h] at hd
  exact ⟨d, hd, hdraining⟩

theorem noNewHolder_set {index : Nat} {c d : RpcCall} (hc : s.calls[index]? = some c)
    (h : t.calls = s.calls.set index d)
    (hphase : d.phase.isDraining = true → c.phase.isDraining = true) : NoNewHolder s t := by
  intro place e he hdraining
  rw [h] at he
  rcases Slots.of_getElem?_set he with ⟨rfl, rfl⟩ | ⟨-, he'⟩
  · exact ⟨c, hc, hphase hdraining⟩
  · exact ⟨e, he', hdraining⟩

theorem noNewHolder_concat {new : RpcCall} (h : t.calls = s.calls ++ [new])
    (hphase : new.phase.isDraining = false) : NoNewHolder s t := by
  intro place e he hdraining
  rw [h] at he
  rcases Slots.of_getElem?_concat he with he | ⟨-, rfl⟩
  · exact ⟨e, he, hdraining⟩
  · rw [hphase] at hdraining
    cases hdraining

theorem noNewHolder_finalize (reason : String) : NoNewHolder s (s.finalize reason) := by
  intro index d hd hdraining
  obtain ⟨c, hc, rfl⟩ := of_getElem?_finalize hd
  refine ⟨c, hc, ?_⟩
  split at hdraining
  · rw [RpcCall.setException_phase] at hdraining
    exact hdraining
  · exact hdraining

theorem Move.exclusive (h : s.Exclusive) (hmove : Move s t) : t.Exclusive := by
  cases hmove with
  | frame hsame _ => exact h.kept (noNewHolder_of_calls hsame.calls)
  | opened hsame _ => exact h.kept (noNewHolder_of_calls hsame.calls)
  | note hsame _ => exact h.kept (noNewHolder_of_calls hsame.calls)
  | finalize reason => exact h.kept (noNewHolder_finalize reason)
  | finish hc _ _ _ _ =>
      refine h.kept (noNewHolder_set hc (calls_finish hc _ _) ?_)
      rintro ⟨⟩
  | drain hc _ hlocked =>
      rw [setPhase_of_some hc]
      unfold locked at hlocked
      rw [List.any_eq_false] at hlocked
      intro first second d e hd he hdraining hdraining'
      rcases Slots.of_getElem?_set hd with ⟨hfirst, -⟩ | ⟨-, hd'⟩
      · rcases Slots.of_getElem?_set he with ⟨hsecond, -⟩ | ⟨-, he'⟩
        · rw [hfirst, hsecond]
        · exact absurd hdraining' (hlocked e (List.mem_of_getElem? he'))
      · exact absurd hdraining (hlocked d (List.mem_of_getElem? hd'))
  | await hc _ =>
      rw [setPhase_of_some hc]
      refine h.kept (noNewHolder_set hc rfl ?_)
      rintro ⟨⟩
  | register _ _ => exact h.kept (noNewHolder_concat rfl rfl)
  | reject _ => exact h.kept (noNewHolder_concat (calls_reject _ _ _ _) rfl)
  | refuse _ hphase _ _ => exact h.kept (noNewHolder_concat rfl (by rw [hphase]; rfl))
  | cancel hc _ _ => exact h.kept (noNewHolder_set hc rfl fun hdraining => hdraining)

/-! ## The run -/

structure Good (s : Client) : Prop where
  sound : s.Sound
  current : s.Current
  exclusive : s.Exclusive

theorem Good.move (h : s.Good) (hmove : Move s t) : t.Good :=
  ⟨hmove.sound h.sound, hmove.current h.sound h.current, hmove.exclusive h.exclusive⟩

theorem Good.moves (h : s.Good) (hmoves : Moves s t) : t.Good ∧ Kept s t := by
  induction hmoves with
  | refl => exact ⟨h, .refl s⟩
  | tail _ hmove ih => exact ⟨ih.1.move hmove, ih.2.trans (hmove.kept ih.1.sound)⟩

theorem Good.congr (h : s.Good) (hsame : SameCalls s t) (hconnection : t.connection = s.connection) :
    t.Good :=
  h.move (Move.frame hsame hconnection)

theorem Good.settled (h : s.Good) {id : String} {index : Nat}
    (hget : s.pendingOutgoingRequestsResults.get? id = some index) (data error : PyValue) :
    (s.settled id data error index).Good := by
  refine ⟨h.sound.settled hget data error, ?_, ?_⟩
  · refine h.current.kept (kept_settled h.sound hget data error) rfl ?_
    exact fun _ _ hother => of_get?_erase_eq_some hother
  · refine h.exclusive.kept ?_
    intro place d hd hdraining
    obtain ⟨before, hbefore, rfl⟩ := of_getElem?_settled hd
    refine ⟨before, hbefore, ?_⟩
    split at hdraining
    · rw [RpcCall.settle_phase] at hdraining
      exact hdraining
    · exact hdraining

variable {loads : List UInt8 → Option PyValue} {autoRetry : Bool}

theorem Good.step (h : s.Good) {a : RpcAction} (hstep : s.step loads autoRetry a = some t) :
    t.Good ∧ Kept s t := by
  rcases step_cases h.sound hstep with
    ⟨u, id, data, error, index, hsame, hconnection, hget, rfl⟩ | hmoves
  · have hu := h.congr hsame hconnection
    exact ⟨hu.settled hget data error,
      Kept.trans (along_of_calls .refl hsame.calls) (kept_settled hu.sound hget data error)⟩
  · exact h.moves hmoves

theorem good_fresh : fresh.Good := by
  have hnone : ∀ (index : Nat) (c : RpcCall), fresh.calls[index]? ≠ some c := by
    intro index c hc
    cases hc
  refine ⟨⟨fun _ => rfl, ?_, ?_, ?_, ?_⟩, ?_, ?_⟩
  · intro id index hget
    cases hget
  · exact fun first _ c _ hc => absurd hc (hnone first c)
  · exact fun index c hc => absurd hc (hnone index c)
  · exact fun index c hc => absurd hc (hnone index c)
  · intro id index hget
    cases hget
  · exact fun first _ c _ hc => absurd hc (hnone first c)

theorem good_of_reachable (h : (rpcMachine loads autoRetry).Reachable s) : s.Good := by
  refine Machine.Reachable.invariant (I := Good) ?_ (fun _ _ _ hs hstep => (hs.step hstep).1) h
  rintro start rfl
  exact good_fresh

/-- What a run leaves of the calls. -/
theorem Good.path (h : s.Good)
    (hpath : (rpcMachine loads autoRetry).Path (fun _ _ => True) s t) : t.Good ∧ Kept s t := by
  induction hpath with
  | refl => exact ⟨h, .refl s⟩
  | step _ _ hmove ih =>
      obtain ⟨hgood, hkept⟩ := ih.1.step hmove
      exact ⟨hgood, ih.2.trans hkept⟩

/-- Without a connection no call is registered. -/
theorem Good.keys_of_none (h : s.Good) (hconnection : s.connection = none) :
    s.pendingOutgoingRequests.keys = [] ∧ s.pendingOutgoingRequestsResults.keys = [] := by
  have hresults : ∀ id, s.pendingOutgoingRequestsResults.get? id = none := by
    intro id
    cases hget : s.pendingOutgoingRequestsResults.get? id with
    | none => rfl
    | some index =>
        have hconnected := (h.current id index hget).1
        rw [hconnection] at hconnected
        cases hconnected
  constructor
  · rw [List.eq_nil_iff_forall_not_mem]
    intro id hid
    obtain ⟨method, hmethod⟩ := Dict.mem_keys_iff.1 hid
    have hsame := h.sound.same id
    rw [hmethod, hresults id] at hsame
    cases hsame
  · rw [List.eq_nil_iff_forall_not_mem]
    intro id hid
    obtain ⟨index, hindex⟩ := Dict.mem_keys_iff.1 hid
    rw [hresults id] at hindex
    cases hindex

/-! ## The end of a connection -/

/-- The calls that there were have no new answer. -/
abbrev SameAnswers : Client → Client → Prop := Along fun c d => d.answer = c.answer

theorem Move.sameAnswers (hmove : Move s t) : SameAnswers s t := by
  cases hmove with
  | frame hsame _ => exact along_of_calls (fun _ => rfl) hsame.calls
  | opened hsame _ => exact along_of_calls (fun _ => rfl) hsame.calls
  | note hsame _ => exact along_of_calls (fun _ => rfl) hsame.calls
  | finalize reason =>
      intro index c hc
      refine ⟨_, getElem?_finalize hc reason, ?_⟩
      split
      · exact RpcCall.setException_answer
      · rfl
  | finish hc _ _ _ _ => exact along_set (fun _ => rfl) hc (calls_finish hc _ _) rfl
  | drain hc _ _ =>
      rw [setPhase_of_some hc]
      exact along_set (fun _ => rfl) hc rfl rfl
  | await hc _ =>
      rw [setPhase_of_some hc]
      exact along_set (fun _ => rfl) hc rfl rfl
  | register _ _ => exact along_concat (fun _ => rfl) rfl
  | reject _ => exact along_concat (fun _ => rfl) (calls_reject _ _ _ _)
  | refuse _ _ _ _ => exact along_concat (fun _ => rfl) rfl
  | cancel hc _ _ => exact along_set (fun _ => rfl) hc rfl rfl

theorem Moves.sameAnswers (hmoves : Moves s t) : SameAnswers s t := by
  induction hmoves with
  | refl => exact along_of_calls (fun _ => rfl) rfl
  | tail _ hmove ih => exact Along.trans (fun hcd hde => hde.trans hcd) ih hmove.sameAnswers

end Client

/-- No value can come of a call any more. -/
def RpcCall.Failing (c : RpcCall) : Prop :=
  (∀ data, c.phase ≠ .ended (.value data)) ∧
    (c.phase.isEnded = false → c.future ≠ .pending ∧ ∀ data, c.future ≠ .result data)

namespace Client

variable {s t u : Client} {loads : List UInt8 → Option PyValue} {autoRetry : Bool}

/-- A call that was registered when the connection ended can only fail. -/
theorem Good.failing_of_step (h : s.Good) {a : RpcAction}
    (hstep : s.step loads autoRetry a = some t) (hconnected : s.connection.isSome = true)
    (hended : t.connection = none) {index : Nat} {c : RpcCall} (hc : s.calls[index]? = some c)
    (hregistered : s.pendingOutgoingRequestsResults.get? c.id = some index) :
    ∃ d, t.calls[index]? = some d ∧ c.Evolves d ∧ d.Failing := by
  obtain ⟨ht, hkept⟩ := h.step hstep
  obtain ⟨d, hd, hevolves⟩ := hkept index c hc
  -- An answer that settles a call leaves the connection alone.
  have hanswer : d.answer = c.answer := by
    rcases step_cases h.sound hstep with
      ⟨u, id, data, error, place, -, hconnection, -, rfl⟩ | hmoves
    · rw [← hconnection] at hconnected
      change u.connection = none at hended
      rw [hended] at hconnected
      cases hconnected
    · obtain ⟨e, he, heq⟩ := Moves.sameAnswers hmoves index c hc
      rw [hd, Option.some.injEq] at he
      rw [he]
      exact heq
  have hnone : d.answer = none := by
    obtain ⟨e, he, -, -, hunsettled⟩ := h.sound.registered c.id index hregistered
    rw [hc, Option.some.injEq] at he
    rw [hanswer, he]
    exact hunsettled.1
  have hresult : ∀ data, d.future ≠ .result data := by
    intro data hdata
    obtain ⟨number, entry, hnumber, -⟩ := (ht.sound.calls index d hd).result data hdata
    rw [hnone] at hnumber
    cases hnumber
  refine ⟨d, hd, hevolves, ?_, ?_⟩
  · intro data hdata
    exact hresult data ((ht.sound.calls index d hd).value data hdata)
  · intro hopen
    refine ⟨?_, hresult⟩
    intro hpending
    have hget := ht.sound.waiting index d hd hopen hpending
    have hconnection := (ht.current d.id index hget).1
    rw [hended] at hconnection
    cases hconnection

theorem Good.failing_of_evolves (h : t.Good) {index : Nat} {c d : RpcCall}
    (hd : t.calls[index]? = some d) (hevolves : c.Evolves d) (hfailing : c.Failing) : d.Failing := by
  cases hended : c.phase.isEnded with
  | true =>
      rw [hevolves.ended hended]
      exact hfailing
  | false =>
      obtain ⟨hpending, hresult⟩ := hfailing.2 hended
      have hfuture := hevolves.future hpending
      constructor
      · intro data hdata
        have hvalue := (h.sound.calls index d hd).value data hdata
        rw [hfuture] at hvalue
        exact hresult data hvalue
      · intro _
        rw [hfuture]
        exact ⟨hpending, hresult⟩

/-- How a call ends of which no value can come. -/
theorem Good.outcome_of_failing (h : s.Good) {index : Nat} {c : RpcCall}
    (hc : s.calls[index]? = some c) (hfailing : c.Failing) {outcome : Outcome}
    (hphase : c.phase = .ended outcome) :
    (∃ error, outcome = .rpcError error) ∨ outcome = .cancelled ∧ c.cancelling = true := by
  cases outcome with
  | value data => exact absurd hphase (hfailing.1 data)
  | rpcError error => exact Or.inl ⟨error, rfl⟩
  | cancelled => exact Or.inr ⟨rfl, (h.sound.calls index c hc).cancelled hphase⟩

end Client

end Rpc
end Io
end ContestManagement
