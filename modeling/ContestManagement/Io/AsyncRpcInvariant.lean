import ContestManagement.Lib.Slots
import ContestManagement.Io.AsyncRpc

/-!
# What holds between two steps of a client

The two dictionaries have the same ids, which belong to calls that are not over and whose future is
not settled; and a call that is not over and waits for its future is in them.  So nothing that
empties the dictionaries can forget a call.
-/

namespace ContestManagement
namespace Io
namespace Rpc

open Lib

namespace RpcCall

/-- No answer and no error has reached the call. -/
def Unsettled (c : RpcCall) : Prop :=
  c.answer = none ∧ (c.future = .pending ∨ c.future = .cancelled)

/-- A call has what the answers gave it. -/
structure Sound (processed : List Processed) (c : RpcCall) : Prop where
  result : ∀ data, c.future = .result data → ∃ number entry, c.answer = some number ∧
    processed[number]? = some entry ∧ entry.id = c.id ∧ entry.error = .none ∧ entry.data = data ∧
    c.id ∈ entry.pending
  answered : ∀ number, c.answer = some number →
    ∃ entry, processed[number]? = some entry ∧ entry.id = c.id
  value : ∀ data, c.phase = .ended (.value data) → c.future = .result data
  cancelled : c.phase = .ended .cancelled → c.cancelling = true
  given : c.future = .cancelled → c.cancelling = true

variable {c : RpcCall} {processed : List Processed} {error : PyValue}

@[simp] theorem setException_id : (c.setException error).id = c.id := by
  unfold setException
  split <;> rfl

@[simp] theorem setException_phase : (c.setException error).phase = c.phase := by
  unfold setException
  split <;> rfl

@[simp] theorem setException_madeOn : (c.setException error).madeOn = c.madeOn := by
  unfold setException
  split <;> rfl

@[simp] theorem setException_answer : (c.setException error).answer = c.answer := by
  unfold setException
  split <;> rfl

@[simp] theorem setException_cancelling : (c.setException error).cancelling = c.cancelling := by
  unfold setException
  split <;> rfl

theorem setException_future_ne : (c.setException error).future ≠ .pending := by
  unfold setException
  split
  · simp
  · assumption

theorem setException_of_ne (h : c.future ≠ .pending) : c.setException error = c := by
  unfold setException
  split
  · contradiction
  · rfl

theorem setException_of_pending (h : c.future = .pending) :
    c.setException error = { c with future := .exception error } := by
  unfold setException
  rw [h]

theorem setException_setException : (c.setException error).setException error =
    c.setException error :=
  setException_of_ne setException_future_ne

namespace Sound

theorem setException (h : c.Sound processed) (hphase : c.phase.isEnded = false) :
    (c.setException error).Sound processed := by
  by_cases hpending : c.future = .pending
  · rw [setException_of_pending hpending]
    constructor
    case result =>
      intro data hdata
      cases hdata
    case answered => exact h.answered
    case value =>
      intro data hvalue
      dsimp only at hvalue
      rw [hvalue] at hphase
      cases hphase
    case cancelled => exact h.cancelled
    case given =>
      intro hcancelled
      cases hcancelled
  · rw [setException_of_ne hpending]
    exact h

/-- More answers come. -/
theorem concat (h : c.Sound processed) (entry : Processed) : c.Sound (processed ++ [entry]) := by
  refine ⟨fun data hdata => ?_, fun number hnumber => ?_, h.value, h.cancelled, h.given⟩
  · obtain ⟨number, found, hanswer, hfound, hrest⟩ := h.result data hdata
    exact ⟨number, found, hanswer, Slots.getElem?_concat_of_some hfound, hrest⟩
  · obtain ⟨found, hfound, hid⟩ := h.answered number hnumber
    exact ⟨found, Slots.getElem?_concat_of_some hfound, hid⟩

theorem setPhase (h : c.Sound processed) {phase : CallPhase}
    (hvalue : ∀ data, phase = .ended (.value data) → c.future = .result data)
    (hcancelled : phase = .ended .cancelled → c.cancelling = true) :
    ({ c with phase } : RpcCall).Sound processed :=
  ⟨h.result, h.answered, hvalue, hcancelled, h.given⟩

end Sound

end RpcCall

namespace Client

/-! ## What the operations do to a call -/

theorem getElem?_failResults (results : Dict String Nat) (error : PyValue) (calls : List RpcCall)
    (place : Nat) : (failResults results error calls)[place]? =
      (calls[place]?).map fun call =>
        if place ∈ results.items.map Prod.snd then call.setException error else call := by
  unfold failResults
  induction results.items generalizing calls with
  | nil => simp
  | cons item rest ih =>
      rw [List.foldl_cons, ih, List.getElem?_modify]
      cases calls[place]? with
      | none => rfl
      | some call =>
          simp only [Option.map_eq_map, Option.map_some, Option.some.injEq, List.map_cons,
            List.mem_cons]
          by_cases hplace : item.2 = place
          · simp [hplace, RpcCall.setException_setException]
          · have hiff : (place = item.2 ∨ place ∈ rest.map Prod.snd) ↔ place ∈ rest.map Prod.snd :=
              or_iff_right (Ne.symm hplace)
            simp only [if_neg hplace, hiff]

theorem getElem?_finalize {s : Client} {index : Nat} {c : RpcCall} (h : s.calls[index]? = some c)
    (reason : String) : (s.finalize reason).calls[index]? =
      some (if index ∈ s.pendingOutgoingRequestsResults.items.map Prod.snd then
        c.setException (.str reason) else c) := by
  change (failResults _ _ _)[index]? = _
  rw [getElem?_failResults, h]
  rfl

/-- A call after a `finalize`. -/
theorem of_getElem?_finalize {s : Client} {reason : String} {place : Nat} {c : RpcCall}
    (h : (s.finalize reason).calls[place]? = some c) :
    ∃ before, s.calls[place]? = some before ∧
      c = if place ∈ s.pendingOutgoingRequestsResults.items.map Prod.snd then
        before.setException (.str reason) else before := by
  change (failResults _ _ _)[place]? = some c at h
  rw [getElem?_failResults, Option.map_eq_some_iff] at h
  obtain ⟨before, hbefore, hc⟩ := h
  exact ⟨before, hbefore, hc.symm⟩

theorem finish_of_some {s : Client} {index : Nat} {c : RpcCall} (h : s.calls[index]? = some c)
    (outcome : Outcome) (sent : Bool) : s.finish index outcome sent =
      { s with
        pendingOutgoingRequests := s.pendingOutgoingRequests.erase c.id
        pendingOutgoingRequestsResults := s.pendingOutgoingRequestsResults.erase c.id
        abandoned :=
          if (s.pendingOutgoingRequests.get? c.id).isSome && sent then
            remember s.abandoned c.id c.method
          else s.abandoned
        calls := s.calls.set index { c with phase := .ended outcome } } := by
  unfold finish
  rw [h]

theorem setPhase_of_some {s : Client} {index : Nat} {c : RpcCall} (h : s.calls[index]? = some c)
    (phase : CallPhase) :
    s.setPhase index phase = { s with calls := s.calls.set index { c with phase } } := by
  unfold setPhase
  congr 1
  refine List.ext_getElem? fun place => ?_
  rw [List.getElem?_modify, Slots.getElem?_set_of_some h]
  by_cases hplace : place = index
  · simp [hplace, h]
  · simp [hplace, Ne.symm hplace]

/-! ## The dictionaries and the calls -/

structure Sound (s : Client) : Prop where
  /-- The dictionaries have the same ids. -/
  same : ∀ id, (s.pendingOutgoingRequests.get? id).isSome =
    (s.pendingOutgoingRequestsResults.get? id).isSome
  registered : ∀ id index, s.pendingOutgoingRequestsResults.get? id = some index →
    ∃ c, s.calls[index]? = some c ∧ c.id = id ∧ c.phase.isEnded = false ∧ c.Unsettled
  ids : ∀ (first second : Nat) (c d : RpcCall), s.calls[first]? = some c →
    s.calls[second]? = some d → c.id = d.id → first = second
  waiting : ∀ (index : Nat) (c : RpcCall), s.calls[index]? = some c → c.phase.isEnded = false →
    c.future = .pending → s.pendingOutgoingRequestsResults.get? c.id = some index
  calls : ∀ (index : Nat) (c : RpcCall), s.calls[index]? = some c → c.Sound s.processed

variable {s : Client} {index : Nat} {c : RpcCall}

/-- The results name exactly the calls that are in the dictionary by their id. -/
theorem Sound.mem_values (h : s.Sound) (hc : s.calls[index]? = some c) :
    index ∈ s.pendingOutgoingRequestsResults.items.map Prod.snd ↔
      s.pendingOutgoingRequestsResults.get? c.id = some index := by
  rw [List.mem_map]
  constructor
  · rintro ⟨⟨id, found⟩, hmem, rfl⟩
    have hget := Dict.mem_items_iff.1 hmem
    obtain ⟨d, hd, hid, -⟩ := h.registered id found hget
    rw [hc, Option.some.injEq] at hd
    subst hd
    rw [hid]
    exact hget
  · intro hget
    exact ⟨(c.id, index), Dict.mem_items_iff.2 hget, rfl⟩

/-- A call that is over is in neither dictionary. -/
theorem Sound.get?_of_isEnded (h : s.Sound) (hc : s.calls[index]? = some c)
    (hended : c.phase.isEnded = true) :
    s.pendingOutgoingRequests.get? c.id = none ∧
      s.pendingOutgoingRequestsResults.get? c.id = none := by
  have hresult : s.pendingOutgoingRequestsResults.get? c.id = none := by
    cases hget : s.pendingOutgoingRequestsResults.get? c.id with
    | none => rfl
    | some place =>
        obtain ⟨d, hd, hid, hphase, -⟩ := h.registered c.id place hget
        obtain rfl := h.ids index place c d hc hd hid.symm
        rw [hc, Option.some.injEq] at hd
        rw [hd, hphase] at hended
        cases hended
  have hsame := h.same c.id
  rw [hresult] at hsame
  exact ⟨by simpa using hsame, hresult⟩

theorem Sound.congr {t : Client} (h : s.Sound)
    (hrequests : t.pendingOutgoingRequests = s.pendingOutgoingRequests)
    (hresults : t.pendingOutgoingRequestsResults = s.pendingOutgoingRequestsResults)
    (hcalls : t.calls = s.calls) (hprocessed : t.processed = s.processed) : t.Sound := by
  constructor
  · rw [hrequests, hresults]
    exact h.same
  · rw [hresults, hcalls]
    exact h.registered
  · rw [hcalls]
    exact h.ids
  · rw [hresults, hcalls]
    exact h.waiting
  · rw [hcalls, hprocessed]
    exact h.calls

theorem Sound.finalize (h : s.Sound) (reason : String) : (s.finalize reason).Sound := by
  constructor
  case same => exact fun _ => rfl
  case registered =>
    intro id place hget
    cases hget
  case ids =>
    intro first second c d hc hd hid
    obtain ⟨c', hc', rfl⟩ := of_getElem?_finalize hc
    obtain ⟨d', hd', rfl⟩ := of_getElem?_finalize hd
    refine h.ids first second c' d' hc' hd' ?_
    split at hid
    · split at hid
      · simpa using hid
      · simpa using hid
    · split at hid
      · simpa using hid
      · simpa using hid
  case waiting =>
    -- A call that waited for its future was in the dictionary, and has the error now.
    intro place c hc hphase hfuture
    obtain ⟨before, hbefore, rfl⟩ := of_getElem?_finalize hc
    split at hfuture
    · exact absurd hfuture RpcCall.setException_future_ne
    · rename_i hmem
      rw [if_neg hmem] at hphase
      exact absurd ((h.mem_values hbefore).2 (h.waiting place before hbefore hphase hfuture)) hmem
  case calls =>
    intro place c hc
    obtain ⟨before, hbefore, rfl⟩ := of_getElem?_finalize hc
    split
    · rename_i hmem
      obtain ⟨d, hd, -, hphase, -⟩ := h.registered _ _ ((h.mem_values hbefore).1 hmem)
      rw [hbefore, Option.some.injEq] at hd
      subst hd
      exact (h.calls place before hbefore).setException hphase
    · exact h.calls place before hbefore

theorem isSome_get?_erase {κ β γ : Type} [DecidableEq κ] {d : Dict κ β} {e : Dict κ γ}
    (h : ∀ key, (d.get? key).isSome = (e.get? key).isSome) (key other : κ) :
    ((d.erase key).get? other).isSome = ((e.erase key).get? other).isSome := by
  rw [Dict.get?_erase, Dict.get?_erase]
  split
  · rfl
  · exact h other

theorem isSome_get?_set {κ β γ : Type} [DecidableEq κ] {d : Dict κ β} {e : Dict κ γ}
    (h : ∀ key, (d.get? key).isSome = (e.get? key).isSome) (key other : κ) (value : β)
    (value' : γ) : ((d.set key value).get? other).isSome = ((e.set key value').get? other).isSome := by
  rw [Dict.get?_set, Dict.get?_set]
  split
  · rfl
  · exact h other

theorem Sound.finish (h : s.Sound) (hc : s.calls[index]? = some c) {outcome : Outcome} {sent : Bool}
    (hvalue : ∀ data, outcome = .value data → c.future = .result data)
    (hcancelled : outcome = .cancelled → c.cancelling = true) :
    (s.finish index outcome sent).Sound := by
  rw [finish_of_some hc]
  constructor
  case same => exact fun id => isSome_get?_erase h.same c.id id
  case registered =>
    intro id place hget
    dsimp only at hget ⊢
    rw [Dict.get?_erase] at hget
    split at hget
    · cases hget
    · rename_i hne
      obtain ⟨d, hd, hid, hrest⟩ := h.registered id place hget
      refine ⟨d, ?_, hid, hrest⟩
      have hplace : place ≠ index := by
        rintro rfl
        rw [hc, Option.some.injEq] at hd
        rw [hd] at hne
        exact hne hid.symm
      rw [Slots.getElem?_set_of_some hc, if_neg hplace]
      exact hd
  case ids =>
    intro first second d e hd he hid
    dsimp only at hd he
    rcases Slots.of_getElem?_set hd with ⟨rfl, rfl⟩ | ⟨-, hd'⟩
    · rcases Slots.of_getElem?_set he with ⟨rfl, -⟩ | ⟨-, he'⟩
      · rfl
      · exact h.ids first second c e hc he' hid
    · rcases Slots.of_getElem?_set he with ⟨rfl, rfl⟩ | ⟨-, he'⟩
      · exact h.ids first second d c hd' hc hid
      · exact h.ids first second d e hd' he' hid
  case waiting =>
    intro place d hd hphase hfuture
    dsimp only at hd ⊢
    rcases Slots.of_getElem?_set hd with ⟨-, rfl⟩ | ⟨hplace, hd⟩
    · cases hphase
    · rw [Dict.get?_erase, if_neg fun hid => hplace (h.ids place index d c hd hc hid)]
      exact h.waiting place d hd hphase hfuture
  case calls =>
    intro place d hd
    dsimp only at hd ⊢
    rcases Slots.of_getElem?_set hd with ⟨-, rfl⟩ | ⟨-, hd⟩
    · refine (h.calls index c hc).setPhase ?_ ?_
      · intro data hdata
        exact hvalue data (CallPhase.ended.inj hdata)
      · intro hdata
        exact hcancelled (CallPhase.ended.inj hdata)
    · exact h.calls place d hd

/-- A call that is not over changes, and keeps its id and what it has of its future. -/
theorem Sound.setCall (h : s.Sound) (hc : s.calls[index]? = some c)
    (hopen : c.phase.isEnded = false) {d : RpcCall} (hid : d.id = c.id)
    (hphase : d.phase.isEnded = false) (hanswer : d.answer = c.answer)
    (hfuture : d.future = c.future ∨ c.future = .pending ∧ d.future = .cancelled)
    (hd : d.Sound s.processed) : ({ s with calls := s.calls.set index d } : Client).Sound := by
  have hpending : d.future = .pending → c.future = .pending := by
    rintro hpending
    rcases hfuture with hsame | ⟨hold, -⟩
    · rw [← hsame, hpending]
    · exact hold
  constructor
  case same => exact h.same
  case registered =>
    intro id place hget
    obtain ⟨e, he, heid, hephase, heunsettled⟩ := h.registered id place hget
    dsimp only
    rw [Slots.getElem?_set_of_some hc]
    by_cases hplace : place = index
    · rw [if_pos hplace]
      rw [hplace, hc, Option.some.injEq] at he
      subst he
      refine ⟨d, rfl, hid.trans heid, hphase, hanswer.trans heunsettled.1, ?_⟩
      rcases hfuture with hsame | ⟨-, hcancelled⟩
      · rw [hsame]
        exact heunsettled.2
      · exact Or.inr hcancelled
    · rw [if_neg hplace]
      exact ⟨e, he, heid, hephase, heunsettled⟩
  case ids =>
    intro first second e f he hf hef
    dsimp only at he hf
    rcases Slots.of_getElem?_set he with ⟨rfl, rfl⟩ | ⟨-, he'⟩
    · rcases Slots.of_getElem?_set hf with ⟨rfl, -⟩ | ⟨-, hf'⟩
      · rfl
      · exact h.ids first second c f hc hf' (hid.symm.trans hef)
    · rcases Slots.of_getElem?_set hf with ⟨rfl, rfl⟩ | ⟨-, hf'⟩
      · exact h.ids first second e c he' hc (hef.trans hid)
      · exact h.ids first second e f he' hf' hef
  case waiting =>
    intro place e he hephase hefuture
    dsimp only at he ⊢
    rcases Slots.of_getElem?_set he with ⟨rfl, rfl⟩ | ⟨-, he'⟩
    · rw [hid]
      exact h.waiting place c hc hopen (hpending hefuture)
    · exact h.waiting place e he' hephase hefuture
  case calls =>
    intro place e he
    dsimp only at he ⊢
    rcases Slots.of_getElem?_set he with ⟨-, rfl⟩ | ⟨-, he'⟩
    · exact hd
    · exact h.calls place e he'

theorem Sound.setPhase (h : s.Sound) (hc : s.calls[index]? = some c)
    (hopen : c.phase.isEnded = false) {phase : CallPhase} (hphase : phase.isEnded = false) :
    (s.setPhase index phase).Sound := by
  rw [setPhase_of_some hc]
  refine h.setCall hc hopen rfl hphase rfl (Or.inl rfl) ((h.calls index c hc).setPhase ?_ ?_)
  · rintro data rfl
    cases hphase
  · rintro rfl
    cases hphase

/-- A call that has no id in common with the others is added. -/
theorem Sound.ids_concat (h : s.Sound) {new : RpcCall}
    (hfresh : ∀ c ∈ s.calls, c.id ≠ new.id) :
    ∀ (first second : Nat) (c d : RpcCall), (s.calls ++ [new])[first]? = some c →
      (s.calls ++ [new])[second]? = some d → c.id = d.id → first = second := by
  intro first second c d hc hd hid
  rcases Slots.of_getElem?_concat hc with hc' | ⟨rfl, rfl⟩
  · rcases Slots.of_getElem?_concat hd with hd' | ⟨rfl, rfl⟩
    · exact h.ids first second c d hc' hd' hid
    · exact absurd hid (hfresh c (List.mem_of_getElem? hc'))
  · rcases Slots.of_getElem?_concat hd with hd' | ⟨rfl, rfl⟩
    · exact absurd hid.symm (hfresh d (List.mem_of_getElem? hd'))
    · rfl

theorem Sound.register (h : s.Sound) {id method : String} (hfresh : ∀ c ∈ s.calls, c.id ≠ id) :
    (s.register id method).Sound := by
  constructor
  case same => exact fun other => isSome_get?_set h.same id other method s.calls.length
  case registered =>
    intro other place hget
    change (Dict.set _ _ _).get? other = some place at hget
    rw [Dict.get?_set] at hget
    split at hget
    · rename_i heq
      rw [Option.some.injEq] at hget
      subst hget
      exact ⟨_, Slots.getElem?_concat_length, heq.symm, rfl, rfl, Or.inl rfl⟩
    · obtain ⟨c, hc, hrest⟩ := h.registered other place hget
      exact ⟨c, Slots.getElem?_concat_of_some hc, hrest⟩
  case ids => exact h.ids_concat hfresh
  case waiting =>
    intro place c hc hphase hfuture
    change (Dict.set _ _ _).get? c.id = some place
    rw [Dict.get?_set]
    rcases Slots.of_getElem?_concat hc with hc | ⟨rfl, rfl⟩
    · rw [if_neg (hfresh c (List.mem_of_getElem? hc))]
      exact h.waiting place c hc hphase hfuture
    · rw [if_pos rfl]
  case calls =>
    intro place c hc
    rcases Slots.of_getElem?_concat hc with hc | ⟨-, rfl⟩
    · exact h.calls place c hc
    · constructor <;> simp

/-- A call whose request cannot be encoded is over at once. -/
theorem Sound.concat_ended (h : s.Sound) {new : RpcCall} (hfresh : ∀ c ∈ s.calls, c.id ≠ new.id)
    (hphase : new.phase.isEnded = true) (hnew : new.Sound s.processed) :
    ({ s with calls := s.calls ++ [new] } : Client).Sound := by
  constructor
  case same => exact h.same
  case registered =>
    intro other place hget
    obtain ⟨c, hc, hrest⟩ := h.registered other place hget
    exact ⟨c, Slots.getElem?_concat_of_some hc, hrest⟩
  case ids => exact h.ids_concat hfresh
  case waiting =>
    intro place c hc hopen hfuture
    rcases Slots.of_getElem?_concat hc with hc | ⟨-, rfl⟩
    · exact h.waiting place c hc hopen hfuture
    · rw [hphase] at hopen
      cases hopen
  case calls =>
    intro place c hc
    rcases Slots.of_getElem?_concat hc with hc | ⟨-, rfl⟩
    · exact h.calls place c hc
    · exact hnew

theorem Sound.concat_processed (h : s.Sound) (entry : Processed) :
    ({ s with processed := s.processed ++ [entry] } : Client).Sound :=
  ⟨h.same, h.registered, h.ids, h.waiting, fun place c hc => (h.calls place c hc).concat entry⟩

end Client

namespace RpcCall

variable {c : RpcCall} {number : Nat} {future : Future}

@[simp] theorem settle_id : (c.settle number future).id = c.id := by
  unfold settle
  split <;> rfl

@[simp] theorem settle_phase : (c.settle number future).phase = c.phase := by
  unfold settle
  split <;> rfl

@[simp] theorem settle_madeOn : (c.settle number future).madeOn = c.madeOn := by
  unfold settle
  split <;> rfl

@[simp] theorem settle_cancelling : (c.settle number future).cancelling = c.cancelling := by
  unfold settle
  split <;> rfl

theorem settle_of_pending (h : c.future = .pending) :
    c.settle number future = { c with future := future, answer := some number } := by
  unfold settle
  rw [h]

theorem settle_of_ne (h : c.future ≠ .pending) : c.settle number future = c := by
  unfold settle
  split
  · contradiction
  · rfl

end RpcCall

namespace Client

variable {s : Client} {index : Nat} {c : RpcCall}

theorem answerFuture_ne_pending (error data : PyValue) : answerFuture error data ≠ .pending := by
  unfold answerFuture
  split <;> simp

theorem answerFuture_ne_cancelled (error data : PyValue) :
    answerFuture error data ≠ .cancelled := by
  unfold answerFuture
  split <;> simp

theorem of_answerFuture_eq_result {error data value : PyValue}
    (h : answerFuture error data = .result value) : error = .none ∧ data = value := by
  unfold answerFuture at h
  split at h
  · exact ⟨rfl, Future.result.inj h⟩
  · cases h

theorem of_getElem?_settled {id : String} {data error : PyValue} {place : Nat}
    (h : (s.settled id data error index).calls[place]? = some c) :
    ∃ before, s.calls[place]? = some before ∧
      c = if index = place then before.settle s.processed.length (answerFuture error data)
        else before := by
  change (List.modify _ _ _)[place]? = some c at h
  rw [List.getElem?_modify, Option.map_eq_map, Option.map_eq_some_iff] at h
  obtain ⟨before, hbefore, hc⟩ := h
  exact ⟨before, hbefore, hc.symm⟩

theorem Sound.settled (h : s.Sound) {id : String}
    (hget : s.pendingOutgoingRequestsResults.get? id = some index) (data error : PyValue) :
    (s.settled id data error index).Sound := by
  obtain ⟨c, hc, hid, hopen, hanswer, -⟩ := h.registered id index hget
  constructor
  case same => exact fun other => isSome_get?_erase h.same id other
  case registered =>
    intro other place hother
    change (Dict.erase _ _).get? other = some place at hother
    rw [Dict.get?_erase] at hother
    split at hother
    · cases hother
    · rename_i hne
      obtain ⟨d, hd, hdid, hrest⟩ := h.registered other place hother
      refine ⟨d, ?_, hdid, hrest⟩
      have hplace : index ≠ place := by
        rintro rfl
        rw [hc, Option.some.injEq] at hd
        rw [← hdid, ← hd] at hne
        exact hne hid
      change (List.modify _ _ _)[place]? = some d
      rw [List.getElem?_modify_ne _ _ hplace]
      exact hd
  case ids =>
    intro first second d e hd he hde
    obtain ⟨d', hd', rfl⟩ := of_getElem?_settled hd
    obtain ⟨e', he', rfl⟩ := of_getElem?_settled he
    refine h.ids first second d' e' hd' he' ?_
    split at hde
    · split at hde
      · simpa using hde
      · simpa using hde
    · split at hde
      · simpa using hde
      · simpa using hde
  case waiting =>
    intro place d hd hphase hfuture
    obtain ⟨before, hbefore, rfl⟩ := of_getElem?_settled hd
    change (Dict.erase _ _).get? _ = some place
    rw [Dict.get?_erase]
    split at hfuture
    · -- Its future is settled now.
      by_cases hpending : before.future = .pending
      · rw [RpcCall.settle_of_pending hpending] at hfuture
        exact absurd hfuture (answerFuture_ne_pending error data)
      · rw [RpcCall.settle_of_ne hpending] at hfuture
        exact absurd hfuture hpending
    · rename_i hplace
      rw [if_neg hplace] at hphase ⊢
      have hne : before.id ≠ id := by
        intro heq
        exact hplace (h.ids index place c before hc hbefore (hid.trans heq.symm))
      rw [if_neg hne]
      exact h.waiting place before hbefore hphase hfuture
  case calls =>
    intro place d hd
    obtain ⟨before, hbefore, rfl⟩ := of_getElem?_settled hd
    have hsound : before.Sound (s.settled id data error index).processed :=
      (h.calls place before hbefore).concat _
    split
    · rename_i hplace
      subst hplace
      rw [hc, Option.some.injEq] at hbefore
      subst hbefore
      by_cases hpending : c.future = .pending
      · rw [RpcCall.settle_of_pending hpending]
        have hentry : (s.settled id data error index).processed[s.processed.length]? =
            some ⟨id, data, error, s.pendingOutgoingRequests.keys⟩ :=
          Slots.getElem?_concat_length
        have hkey : id ∈ s.pendingOutgoingRequests.keys := by
          rw [Dict.mem_keys_iff, ← Option.isSome_iff_exists, h.same, hget]
          rfl
        constructor
        case result =>
          intro value hvalue
          obtain ⟨herror, hdata⟩ := of_answerFuture_eq_result hvalue
          exact ⟨_, _, rfl, hentry, hid.symm, herror, hdata, by rw [hid]; exact hkey⟩
        case answered =>
          intro number hnumber
          rw [Option.some.injEq] at hnumber
          subst hnumber
          exact ⟨_, hentry, hid.symm⟩
        case value =>
          intro value hvalue
          dsimp only at hvalue
          rw [hvalue] at hopen
          cases hopen
        case cancelled => exact hsound.cancelled
        case given => exact fun hcancelled => absurd hcancelled (answerFuture_ne_cancelled _ _)
      · rw [RpcCall.settle_of_ne hpending]
        exact hsound
    · exact hsound

end Client

end Rpc
end Io
end ContestManagement
