import ContestManagement.Service.ProxyExecutor
import Mathlib.Data.List.Induction

/-!
# What one batch does to one namespace and type

For a namespace and a type, `_send_batch_sync` merges the entries that follow the last
reset of the namespace.  Each request for them carries values of the merged data only,
and unless nothing at all is answered the first request carries all of it.  Only entries
that were merged go back to the queue.
-/

namespace ContestManagement
namespace Service

open Lib Io

variable {V : Type} {g : Namespace} {t : EntityType}

/-- The request is for entities of a type of a namespace. -/
def Request.isAbout (g : Namespace) (t : EntityType) : Request V → Bool
  | ⟨group, .entities type_ _, _⟩ => group = g && type_ = t
  | _ => false

/-- The requests about a namespace and a type. -/
def requestsFor (g : Namespace) (t : EntityType) (requests : List (Request V)) :
    List (Request V) :=
  requests.filter (Request.isAbout g t)

theorem requestsFor_append (first second : List (Request V)) :
    requestsFor g t (first ++ second) = requestsFor g t first ++ requestsFor g t second :=
  List.filter_append ..

/-- The answers about a namespace and a type. -/
def answersFor (g : Namespace) (t : EntityType) (answered : List (Answer V)) :
    List (Dict String V) :=
  answered.filterMap fun a => if a.group = g ∧ a.type_ = t then some a.data else none

theorem answersFor_append (first second : List (Answer V)) :
    answersFor g t (first ++ second) = answersFor g t first ++ answersFor g t second :=
  List.filterMap_append

theorem mem_answersFor {answered : List (Answer V)} {data : Dict String V} :
    data ∈ answersFor g t answered ↔ ⟨g, t, data⟩ ∈ answered := by
  rw [answersFor, List.mem_filterMap]
  constructor
  · rintro ⟨a, ha, hdata⟩
    obtain ⟨group, type_, data'⟩ := a
    split at hdata
    case isFalse => cases hdata
    case isTrue hkind =>
      obtain ⟨rfl, rfl⟩ := hkind
      cases hdata
      exact ha
  · intro h
    exact ⟨_, h, by simp⟩

/-- A request answers about what it is for. -/
theorem Request.kind_of_answer {request : Request V} {a : Answer V}
    (h : request.answer = some a) :
    request.group = a.group ∧ request.kind = .entities a.type_ a.data := by
  obtain ⟨group, kind, response⟩ := request
  cases kind with
  | reset path => cases h
  | visibility id settings => cases h
  | entities type_ data =>
      cases response with
      | undelivered => cases h
      | delivered =>
          cases h
          exact ⟨rfl, rfl⟩
      | refused status =>
          simp only [answer] at h
          split at h
          case isTrue => cases h
          case isFalse =>
            cases h
            exact ⟨rfl, rfl⟩

/-- Only the requests about a namespace and a type are answered about them. -/
theorem answersFor_requestsFor (requests : List (Request V)) :
    answersFor g t ((requestsFor g t requests).filterMap Request.answer) =
      answersFor g t (requests.filterMap Request.answer) := by
  induction requests with
  | nil => rfl
  | cons request rest ih =>
      rw [← List.singleton_append, requestsFor_append, List.filterMap_append, List.filterMap_append,
        answersFor_append, answersFor_append, ih, List.append_cancel_right_eq]
      cases hanswer : request.answer with
      | none =>
          have hnone : (requestsFor g t [request]).filterMap Request.answer = [] := by
            rw [List.filterMap_eq_nil_iff]
            intro request' hmem
            obtain rfl := List.mem_singleton.1 (List.mem_filter.1 hmem).1
            exact hanswer
          rw [hnone]
          simp [hanswer]
      | some a =>
          obtain ⟨hgroup, hkind⟩ := Request.kind_of_answer hanswer
          obtain ⟨group, kind, response⟩ := request
          simp only at hgroup hkind
          subst hgroup hkind
          by_cases habout : a.group = g ∧ a.type_ = t
          · simp [requestsFor, Request.isAbout, habout]
          · have hsome : [(⟨a.group, .entities a.type_ a.data, response⟩ : Request V)].filterMap
                Request.answer = [a] := by simp [hanswer]
            rw [hsome]
            simp [requestsFor, Request.isAbout, answersFor, habout]

/-- The request is for one entity, which the ranking refuses for another reason than
invalid data. -/
def Request.stopsSplit (g : Namespace) (t : EntityType) : Request V → Bool
  | ⟨group, .entities type_ data, .refused (some status)⟩ =>
      group = g && type_ = t && data.items.length = 1 && status ≠ invalidDataStatus
  | _ => false

/-- The request is for this entity alone. -/
def Request.isAlone (g : Namespace) (t : EntityType) (key : String) : Request V → Bool
  | ⟨group, .entities type_ data, _⟩ => group = g && type_ = t && data.keys = [key]
  | _ => false

/-- The split of a list was stopped by the refusal of another entity before this one was
tried, and this one is dropped with it. -/
def leftUntried (requests : List (Request V)) (g : Namespace) (t : EntityType) (key : String) :
    Bool :=
  requests.any (Request.stopsSplit g t) && !requests.any (Request.isAlone g t key)

/-- What the requests of a round settle about an entity. -/
inductive EntitySettled (requests : List (Request V)) (g : Namespace) (t : EntityType)
    (key : String) : Prop
  | delivered (data : Dict String V) (carried : key ∈ data.keys)
      (sent : ⟨g, .entities t data, .delivered⟩ ∈ requests)
  | refusedAlone (value : V) (status : Option Nat)
      (sent : ⟨g, .entities t (.singleton key value), .refused status⟩ ∈ requests)
  /-- A list refused for another reason than invalid data is dropped whole. -/
  | refusedWhole (data : Dict String V) (carried : key ∈ data.keys) (status : Nat)
      (other : status ≠ invalidDataStatus)
      (sent : ⟨g, .entities t data, .refused (some status)⟩ ∈ requests)
  | untried (left : leftUntried requests g t key)

/-- An entity that was tried has an answer. -/
theorem EntitySettled.answered {requests : List (Request V)} {key : String}
    (h : EntitySettled requests g t key) :
    leftUntried requests g t key ∨
      ∃ data ∈ answersFor g t (requests.filterMap Request.answer), key ∈ data.keys := by
  cases h with
  | delivered data carried sent =>
      exact .inr ⟨data, mem_answersFor.2 (List.mem_filterMap.2 ⟨_, sent, rfl⟩), carried⟩
  | refusedAlone value status sent =>
      refine .inr ⟨.singleton key value,
        mem_answersFor.2 (List.mem_filterMap.2 ⟨_, sent, ?_⟩), by simp [Dict.keys, Dict.singleton]⟩
      simp [Request.answer, splits, Dict.singleton]
  | refusedWhole data carried status other sent =>
      refine .inr ⟨data, mem_answersFor.2 (List.mem_filterMap.2 ⟨_, sent, ?_⟩), carried⟩
      simp [Request.answer, splits, other]
  | untried left => exact .inl left

/-- Requests about something else settle nothing. -/
theorem EntitySettled.of_requestsFor {requests : List (Request V)} {key : String}
    (h : EntitySettled (requestsFor g t requests) g t key) : EntitySettled requests g t key := by
  have hsub : requestsFor g t requests ⊆ requests := List.filter_sublist.subset
  cases h with
  | delivered data carried sent => exact .delivered data carried (hsub sent)
  | refusedAlone value status sent => exact .refusedAlone value status (hsub sent)
  | refusedWhole data carried status other sent =>
      exact .refusedWhole data carried status other (hsub sent)
  | untried left =>
      refine .untried ?_
      rw [leftUntried, Bool.and_eq_true, List.any_eq_true, Bool.not_eq_true',
        List.any_eq_false] at left ⊢
      obtain ⟨⟨request, hrequest, hstops⟩, halone⟩ := left
      refine ⟨⟨request, hsub hrequest, hstops⟩, fun request' hmem hkey => ?_⟩
      refine halone request' (List.mem_filter.2 ⟨hmem, ?_⟩) hkey
      obtain ⟨group, kind, response⟩ := request'
      cases kind with
      | reset path => cases hkey
      | visibility id settings => cases hkey
      | entities type_ data =>
          simp only [Request.isAlone, Bool.and_eq_true] at hkey
          simpa [Request.isAbout] using hkey.1

/-- Every value of a dictionary is one of the merged data. -/
def PartOf (d data : Dict String V) : Prop :=
  ∀ key value, d.get? key = some value → data.get? key = some value

/-! ### Requests -/

namespace Wire

/-- What a request adds to what was sent, and what it finds out. -/
theorem attempt_spec (w : Wire V) (group : Namespace) (kind : RequestKind V) :
    (w.attempt group kind).2.rejectedVisibility = w.rejectedVisibility ∧
      ∃ response, (w.attempt group kind).2.requests = w.requests ++ [⟨group, kind, response⟩] ∧
        match response with
        | .delivered => (w.attempt group kind).1 = .sent
        | .refused status => (w.attempt group kind).1 = .rejected ∧
            (w.attempt group kind).2.lastRefusalStatus = status
        | .undelivered => (w.attempt group kind).1 = .unsent := by
  simp only [attempt]
  cases w.responses.head?.getD .undelivered with
  | delivered => exact ⟨rfl, .delivered, rfl, rfl⟩
  | refused status => exact ⟨rfl, .refused status, rfl, rfl, rfl⟩
  | undelivered => exact ⟨rfl, .undelivered, rfl, rfl⟩

/-- Only requests with a certain property were made, and no settings were tracked. -/
def Adds (p : Request V → Prop) (w w' : Wire V) : Prop :=
  w'.rejectedVisibility = w.rejectedVisibility ∧
    ∃ new, w'.requests = w.requests ++ new ∧ ∀ request ∈ new, p request

namespace Adds

variable {p q : Request V → Prop} {w w' w'' : Wire V}

theorem refl (w : Wire V) : Adds p w w :=
  ⟨rfl, [], by simp, by simp⟩

theorem trans (h : Adds p w w') (h' : Adds p w' w'') : Adds p w w'' := by
  obtain ⟨hrejected, new, hnew, hp⟩ := h
  obtain ⟨hrejected', new', hnew', hp'⟩ := h'
  refine ⟨hrejected'.trans hrejected, new ++ new', ?_, ?_⟩
  · rw [hnew', hnew, List.append_assoc]
  · intro request hrequest
    rcases List.mem_append.1 hrequest with hrequest | hrequest
    · exact hp request hrequest
    · exact hp' request hrequest

theorem mono (h : Adds p w w') (hpq : ∀ request, p request → q request) : Adds q w w' := by
  obtain ⟨hrejected, new, hnew, hp⟩ := h
  exact ⟨hrejected, new, hnew, fun request hrequest => hpq request (hp request hrequest)⟩

theorem subset (h : Adds p w w') : w.requests ⊆ w'.requests := by
  obtain ⟨-, new, hnew, -⟩ := h
  rw [hnew]
  exact List.subset_append_left _ _

end Adds

theorem adds_attempt (w : Wire V) (group : Namespace) (kind : RequestKind V) :
    Adds (fun request => request.group = group ∧ request.kind = kind) w
      (w.attempt group kind).2 := by
  obtain ⟨hrejected, response, hrequests, -⟩ := w.attempt_spec group kind
  refine ⟨hrejected, [⟨group, kind, response⟩], hrequests, ?_⟩
  intro request hrequest
  rw [List.mem_singleton.1 hrequest]
  exact ⟨rfl, rfl⟩

/-- Requests about something else do not count for a namespace and a type. -/
theorem Adds.requestsFor_eq {p : Request V → Prop} {w w' : Wire V} (h : Adds p w w')
    (hp : ∀ request, p request → request.isAbout g t = false) :
    requestsFor g t w'.requests = requestsFor g t w.requests := by
  obtain ⟨-, new, hnew, hall⟩ := h
  have hnone : requestsFor g t new = [] := by
    rw [requestsFor, List.filter_eq_nil_iff]
    intro request hrequest
    simp [hp request (hall request hrequest)]
  rw [hnew, requestsFor_append, hnone, List.append_nil]

theorem adds_sendReset (w : Wire V) (group : Namespace) (paths : List EntityType) :
    Adds (fun request => request.group = group ∧ ∃ path, request.kind = .reset path) w
      (w.sendReset group paths).2 := by
  induction paths generalizing w with
  | nil => exact .refl w
  | cons path rest ih =>
      have hfirst : Adds (fun request => request.group = group ∧ ∃ path, request.kind = .reset path)
          w (w.attempt group (.reset path)).2 :=
        (w.adds_attempt group (.reset path)).mono fun _ h => ⟨h.1, path, h.2⟩
      unfold sendReset
      split
      case h_1 w' heq =>
        rw [heq] at hfirst
        exact hfirst.trans (ih w')
      case h_2 => exact hfirst

theorem isAbout_of_reset {request : Request V}
    (h : ∃ path, request.kind = .reset path) : request.isAbout g t = false := by
  obtain ⟨path, hkind⟩ := h
  obtain ⟨group, kind, response⟩ := request
  obtain rfl : kind = .reset path := hkind
  rfl

theorem isAbout_of_visibility {request : Request V}
    (h : ∃ id settings, request.kind = .visibility id settings) :
    request.isAbout g t = false := by
  obtain ⟨id, settings, hkind⟩ := h
  obtain ⟨group, kind, response⟩ := request
  obtain rfl : kind = .visibility id settings := hkind
  rfl

theorem trackVisibility_requests (w : Wire V) (group : Namespace) (outcome : SendOutcome) :
    (w.trackVisibility group outcome).requests = w.requests := by
  cases outcome with
  | unsent => rfl
  | sent => rfl
  | rejected =>
      simp only [Wire.trackVisibility]
      split <;> rfl

/-- A request about some of the data of a namespace and a type. -/
def AboutPart (group : Namespace) (type_ : EntityType) (data : Dict String V)
    (request : Request V) : Prop :=
  request.group = group ∧ ∃ part, PartOf part data ∧ request.kind = .entities type_ part

theorem AboutPart.isAbout {group : Namespace} {type_ : EntityType} {data : Dict String V}
    {request : Request V} (h : AboutPart group type_ data request) :
    request.isAbout g t = decide (group = g ∧ type_ = t) := by
  obtain ⟨hgroup, part, -, hkind⟩ := h
  obtain ⟨group', kind, response⟩ := request
  simp only at hgroup hkind
  subst hgroup hkind
  simp [Request.isAbout]

theorem adds_send {group : Namespace} {type_ : EntityType} {part data : Dict String V}
    (hpart : PartOf part data) (w : Wire V) :
    Adds (AboutPart group type_ data) w (w.send group type_ part).2 :=
  (w.adds_attempt group (.entities type_ part)).mono fun _ h => ⟨h.1, part, hpart, h.2⟩

/-- The entities sent alone are entities of the list. -/
theorem adds_sendAlone (group : Namespace) (type_ : EntityType) {data : Dict String V}
    (split : Bool) (w : Wire V) (refused : List (String × V)) (done : List String)
    {items : List (String × V)} (hitems : items ⊆ data.items) :
    Adds (AboutPart group type_ data) w (sendAlone group type_ split w refused done items).2 := by
  induction items generalizing w refused done with
  | nil => exact .refl w
  | cons item rest ih =>
      obtain ⟨hitem, hrest⟩ := List.cons_subset.1 hitems
      have hpart : PartOf (.singleton item.1 item.2) data := by
        intro key value hvalue
        rw [Dict.get?_singleton] at hvalue
        split at hvalue
        case isFalse => cases hvalue
        case isTrue hkey =>
          cases hvalue
          subst hkey
          exact Dict.mem_items_iff.1 hitem
      have hfirst : Adds (AboutPart group type_ data) w (sendEntity group type_ split w item).2 := by
        cases split with
        | false => exact .refl w
        | true => exact adds_send hpart w
      unfold sendAlone
      split
      case h_1 w' heq =>
        rw [heq] at hfirst
        exact hfirst
      case h_2 w' heq =>
        rw [heq] at hfirst
        exact hfirst.trans (ih w' _ _ hrest)
      case h_3 w' heq =>
        rw [heq] at hfirst
        split
        case h_1 => exact hfirst.trans (ih w' _ _ hrest)
        case h_2 status hstatus =>
          split
          case isTrue => exact hfirst.trans (ih w' _ _ hrest)
          case isFalse => exact hfirst

/-- A request for one entity. -/
def alone (group : Namespace) (type_ : EntityType) (item : String × V) (response : Response) :
    Request V :=
  ⟨group, .entities type_ (.singleton item.1 item.2), response⟩

/-- The request for an entity that was tried. -/
theorem exists_alone (w : Wire V) (group : Namespace) (type_ : EntityType) (item : String × V) :
    ∃ response, (sendEntity group type_ true w item).2.requests =
        w.requests ++ [alone group type_ item response] ∧
      match response with
      | .delivered => (sendEntity group type_ true w item).1 = .sent
      | .refused status => (sendEntity group type_ true w item).1 = .rejected ∧
          (sendEntity group type_ true w item).2.lastRefusalStatus = status
      | .undelivered => (sendEntity group type_ true w item).1 = .unsent :=
  (w.attempt_spec group _).2

/-- How far a split gets, with what it sends: the entities that were tried have an answer
of their own.  It ends with the list, or at the refusal of one of them for another reason
than invalid data, unless the ranking cannot be reached. -/
structure SplitAt (group : Namespace) (type_ : EntityType) (new : List (Request V))
    (tried left : List (String × V)) (stopped : Option (List String)) (done : List String) :
    Prop where
  answered : ∀ item ∈ tried, ∃ response, response ≠ .undelivered ∧
    alone group type_ item response ∈ new
  reached : ∀ ids, stopped = some ids → ids = done ++ tried.map Prod.fst
  ended : stopped = none → (∀ request ∈ new, ∃ item ∈ tried, ∃ response,
      request = alone group type_ item response) ∧
    (left = [] ∨ ∃ item ∈ tried, ∃ status, status ≠ invalidDataStatus ∧
      alone group type_ item (.refused (some status)) ∈ new)

/-- An entity was tried, and the split goes on with the rest. -/
theorem SplitAt.cons {group : Namespace} {type_ : EntityType} {new : List (Request V)}
    {tried left : List (String × V)} {stopped : Option (List String)} {done : List String}
    {item : String × V} (h : SplitAt group type_ new tried left stopped (done ++ [item.1]))
    {response : Response} (hresponse : response ≠ .undelivered) :
    SplitAt group type_ (alone group type_ item response :: new) (item :: tried) left stopped
      done := by
  refine ⟨?_, fun ids hids => ?_, fun hended => ?_⟩
  · intro item' hitem'
    rcases List.mem_cons.1 hitem' with rfl | hitem'
    · exact ⟨response, hresponse, List.mem_cons_self ..⟩
    · obtain ⟨response', hne, hmem⟩ := h.answered item' hitem'
      exact ⟨response', hne, List.mem_cons_of_mem _ hmem⟩
  · rw [h.reached ids hids, List.append_assoc, List.map_cons]
    rfl
  · obtain ⟨hnew, hleft⟩ := h.ended hended
    refine ⟨fun request hrequest => ?_, hleft.imp_right ?_⟩
    · rcases List.mem_cons.1 hrequest with rfl | hrequest
      · exact ⟨item, List.mem_cons_self .., response, rfl⟩
      · obtain ⟨item', hitem', response', heq⟩ := hnew request hrequest
        exact ⟨item', List.mem_cons_of_mem _ hitem', response', heq⟩
    · rintro ⟨item', hitem', status, hother, hmem⟩
      exact ⟨item', List.mem_cons_of_mem _ hitem', status, hother, List.mem_cons_of_mem _ hmem⟩

/-- A split sends its entities one by one. -/
theorem sendAlone_split (group : Namespace) (type_ : EntityType) (w : Wire V)
    (refused : List (String × V)) (done : List String) (items : List (String × V)) :
    ∃ tried left new, items = tried ++ left ∧
      (sendAlone group type_ true w refused done items).2.requests = w.requests ++ new ∧
      SplitAt group type_ new tried left (sendAlone group type_ true w refused done items).1
        done := by
  induction items generalizing w refused done with
  | nil => exact ⟨[], [], [], rfl, by simp [sendAlone, reportRefused], by simp, by simp [sendAlone],
      fun _ => ⟨by simp, .inl rfl⟩⟩
  | cons item rest ih =>
      obtain ⟨response, hrequests, hresponse⟩ := w.exists_alone group type_ item
      -- The entity was tried; the induction hypothesis is about the entities after it.
      have hnext : ∀ (w' : Wire V) refused', response ≠ .undelivered →
          w'.requests = w.requests ++ [alone group type_ item response] →
          ∃ tried left new, item :: rest = tried ++ left ∧
            (sendAlone group type_ true w' refused' (done ++ [item.1]) rest).2.requests =
              w.requests ++ new ∧
            SplitAt group type_ new tried left
              (sendAlone group type_ true w' refused' (done ++ [item.1]) rest).1 done := by
        intro w' refused' hne hw'
        obtain ⟨tried, left, new, hitems, hnew, hsplit⟩ := ih w' refused' (done ++ [item.1])
        refine ⟨item :: tried, left, alone group type_ item response :: new, ?_, ?_,
          hsplit.cons hne⟩
        · rw [hitems, List.cons_append]
        · rw [hnew, hw', List.append_assoc, List.singleton_append]
      unfold sendAlone
      split
      case h_1 w' heq =>
        rw [heq] at hrequests
        refine ⟨[], item :: rest, [alone group type_ item response], rfl, hrequests, by simp, ?_,
          by simp⟩
        intro ids hids
        cases hids
        simp
      case h_2 w' heq =>
        rw [heq] at hrequests hresponse
        refine hnext w' _ (fun h => ?_) hrequests
        subst h
        cases hresponse
      case h_3 w' heq =>
        rw [heq] at hrequests hresponse
        have hne : response ≠ .undelivered := by
          rintro rfl
          cases hresponse
        split
        case h_1 => exact hnext w' _ hne hrequests
        case h_2 status hstatus =>
          split
          case isTrue => exact hnext w' _ hne hrequests
          case isFalse hother =>
            -- This entity stops the split.
            refine ⟨[item], rest, [alone group type_ item response], rfl, hrequests, ?_, by simp, ?_⟩
            · intro item' hitem'
              rw [List.mem_singleton.1 hitem']
              exact ⟨response, hne, List.mem_singleton_self _⟩
            · refine fun _ => ⟨by simp, .inr ⟨item, List.mem_singleton_self _, status, hother, ?_⟩⟩
              cases response with
              | delivered => cases hresponse
              | undelivered => exact absurd rfl hne
              | refused status' =>
                  obtain rfl : w'.lastRefusalStatus = status' := hresponse.2
                  rw [hstatus]
                  exact List.mem_singleton_self _

/-- A split of a list settles the entities that do not go back. -/
theorem SplitAt.settled {group : Namespace} {type_ : EntityType} {data : Dict String V}
    {response : Response} {new : List (Request V)} {tried left : List (String × V)}
    {stopped : Option (List String)} (h : SplitAt group type_ new tried left stopped [])
    (hitems : data.items = tried ++ left) (hmany : 1 < data.items.length) {key : String}
    (hkey : key ∈ data.keys) :
    (∃ ids, stopped = some ids ∧ key ∉ ids) ∨
      EntitySettled (⟨group, .entities type_ data, response⟩ :: new) group type_ key := by
  have hdistinct := data.distinct
  rw [Dict.keys, hitems, List.map_append, List.mem_append] at hkey
  rw [hitems, List.map_append, List.nodup_append] at hdistinct
  rcases hkey with hkey | hkey
  · obtain ⟨item, hitem, rfl⟩ := List.mem_map.1 hkey
    obtain ⟨response', hne, hmem⟩ := h.answered item hitem
    refine .inr ?_
    cases response' with
    | undelivered => exact absurd rfl hne
    | delivered =>
        exact .delivered _ (by simp [Dict.keys, Dict.singleton]) (List.mem_cons_of_mem _ hmem)
    | refused status => exact .refusedAlone item.2 status (List.mem_cons_of_mem _ hmem)
  · have hnot : key ∉ tried.map Prod.fst := fun hmem => hdistinct.2.2 key hmem key hkey rfl
    cases hstopped : stopped with
    | some ids =>
        refine .inl ⟨ids, rfl, ?_⟩
        rw [h.reached ids hstopped, List.nil_append]
        exact hnot
    | none =>
        obtain ⟨hnew, hleft | ⟨item, -, status, hother, hmem⟩⟩ := h.ended hstopped
        · rw [hleft] at hkey
          cases hkey
        refine .inr (.untried ?_)
        rw [leftUntried, Bool.and_eq_true, List.any_eq_true, Bool.not_eq_true', List.any_eq_false]
        refine ⟨⟨_, List.mem_cons_of_mem _ hmem, ?_⟩, fun request hrequest halone => ?_⟩
        · simp [alone, Request.stopsSplit, Dict.singleton, hother]
        · rcases List.mem_cons.1 hrequest with rfl | hrequest
          · have hlength := congrArg List.length (of_decide_eq_true (Bool.and_eq_true_iff.1 halone).2)
            rw [Dict.keys, List.length_map, List.length_singleton] at hlength
            omega
          · obtain ⟨item', hitem', response', rfl⟩ := hnew request hrequest
            have hsingle := of_decide_eq_true (Bool.and_eq_true_iff.1 halone).2
            obtain rfl : item'.1 = key := List.head_eq_of_cons_eq hsingle
            exact hnot (List.mem_map.2 ⟨item', hitem', rfl⟩)

/-- A refused list that is not split settles all of its entities. -/
theorem settled_of_not_splits {group : Namespace} {type_ : EntityType} {data : Dict String V}
    {status : Option Nat} {requests : List (Request V)} (hsplits : splits data status = false)
    (hsent : ⟨group, .entities type_ data, .refused status⟩ ∈ requests) {key : String}
    (hkey : key ∈ data.keys) : EntitySettled requests group type_ key := by
  by_cases hmany : 1 < data.items.length
  · simp only [splits, hmany, decide_true, Bool.true_and, Bool.or_eq_false_iff,
      decide_eq_false_iff_not] at hsplits
    obtain ⟨hencoded, hother⟩ := hsplits
    cases status with
    | none => exact absurd rfl hencoded
    | some status =>
        exact .refusedWhole data hkey status (fun heq => hother (by rw [heq])) hsent
  · obtain ⟨value, hvalue⟩ := Dict.mem_keys_iff.1 hkey
    have hsingle : data = .singleton key value := by
      have hmem := Dict.mem_items_iff.2 hvalue
      obtain ⟨items, distinct⟩ := data
      cases items with
      | nil => cases hmem
      | cons item rest =>
          have hnil : rest = [] := by
            rw [← List.length_eq_zero_iff]
            simp only [List.length_cons] at hmany
            omega
          subst hnil
          obtain rfl := List.mem_singleton.1 hmem
          rfl
    rw [hsingle] at hsent
    exact .refusedAlone value status hsent

/-- `_send_type` sends nothing but parts of the data, and puts back some of the entries.
Each entity is settled, or every entry that has it goes back. -/
theorem sendType_spec (w : Wire V) (group : Namespace) (type_ : EntityType)
    (entries : List (ProxyEntry V)) (data : Dict String V) :
    Adds (AboutPart group type_ data) w (w.sendType group type_ entries data).2.2 ∧
      (w.sendType group type_ entries data).2.1 ⊆ entries ∧
      ∃ new, (w.sendType group type_ entries data).2.2.requests = w.requests ++ new ∧
        ∀ key ∈ data.keys, EntitySettled new group type_ key ∨
          (w.sendType group type_ entries data).1 = .unsent ∧
            ∀ e ∈ entries, key ∈ e.data.keys →
              e ∈ (w.sendType group type_ entries data).2.1 := by
  have hwhole : PartOf data data := fun _ _ h => h
  have hlist : Adds (AboutPart group type_ data) w (w.send group type_ data).2 :=
    adds_send hwhole w
  obtain ⟨-, response, hrequests, hresponse⟩ := w.attempt_spec group (.entities type_ data)
  unfold sendType
  split
  case h_1 w' heq =>
    rw [send] at heq
    rw [send, heq] at hlist
    rw [heq] at hrequests hresponse
    refine ⟨hlist, List.nil_subset _, _, hrequests, fun key hkey => .inl ?_⟩
    cases response with
    | delivered => exact .delivered data hkey (List.mem_singleton_self _)
    | refused status => cases hresponse.1
    | undelivered => cases hresponse
  case h_2 w' heq =>
    rw [send] at heq
    rw [send, heq] at hlist
    rw [heq] at hrequests
    exact ⟨hlist, List.Subset.refl _, _, hrequests, fun key _ => .inr ⟨rfl, fun _ he _ => he⟩⟩
  case h_3 w' heq =>
    rw [send] at heq
    rw [send, heq] at hlist
    rw [heq] at hrequests hresponse
    -- Only a refusal gets here, and the split depends on its status.
    obtain ⟨status, rfl, hstatus⟩ : ∃ status, response = .refused status ∧
        w'.lastRefusalStatus = status := by
      cases response with
      | delivered => cases hresponse
      | undelivered => cases hresponse
      | refused status => exact ⟨status, rfl, hresponse.2⟩
    have halone := adds_sendAlone group type_ (splits data w'.lastRefusalStatus) w' [] []
      (List.Subset.refl data.items)
    have hsettled : ∃ new, (sendAlone group type_ (splits data w'.lastRefusalStatus) w' [] []
          data.items).2.requests = w.requests ++ new ∧
        ∀ key ∈ data.keys, EntitySettled new group type_ key ∨
          ∃ ids, (sendAlone group type_ (splits data w'.lastRefusalStatus) w' [] []
            data.items).1 = some ids ∧ key ∉ ids := by
      cases hsplits : splits data w'.lastRefusalStatus with
      | true =>
          obtain ⟨tried, left, new, hitems, hnew, hsplit⟩ :=
            sendAlone_split group type_ w' [] [] data.items
          have hmany : 1 < data.items.length := by
            rw [splits, Bool.and_eq_true] at hsplits
            exact of_decide_eq_true hsplits.1
          refine ⟨⟨group, .entities type_ data, .refused status⟩ :: new, ?_, fun key hkey => ?_⟩
          · rw [hnew, hrequests, List.append_assoc, List.singleton_append]
          · exact (hsplit.settled hitems hmany hkey).symm
      | false =>
          rw [hsplits] at halone
          obtain ⟨-, new, hnew, -⟩ := halone
          refine ⟨⟨group, .entities type_ data, .refused status⟩ :: new, ?_, fun key hkey => ?_⟩
          · rw [hnew, hrequests, List.append_assoc, List.singleton_append]
          · exact .inl (settled_of_not_splits (hstatus ▸ hsplits) (List.mem_cons_self ..) hkey)
    obtain ⟨new, hnew, hsettled⟩ := hsettled
    split
    case h_1 w'' hend =>
      rw [hend] at halone hnew hsettled
      refine ⟨hlist.trans halone, List.nil_subset _, new, hnew, fun key hkey => ?_⟩
      rcases hsettled key hkey with hsettled | ⟨ids, hids, -⟩
      · exact .inl hsettled
      · cases hids
    case h_2 done w'' hend =>
      rw [hend] at halone hnew hsettled
      refine ⟨hlist.trans halone, List.filter_sublist.subset, new, hnew, fun key hkey => ?_⟩
      rcases hsettled key hkey with hsettled | ⟨ids, hids, hnot⟩
      · exact .inl hsettled
      · obtain rfl : done = ids := Option.some.inj hids
        refine .inr ⟨rfl, fun e he hcarried => List.mem_filter.2 ⟨he, ?_⟩⟩
        exact decide_eq_true fun hsub => hnot (hsub hcarried)

end Wire

/-! ### The data of the namespaces -/

/-- What the iterations about other namespaces or types leave alone. -/
structure Untouched (g : Namespace) (t : EntityType) (s s' : Sending V) : Prop where
  requests : requestsFor g t s'.wire.requests = requestsFor g t s.wire.requests
  rejected : s'.wire.rejectedVisibility = s.wire.rejectedVisibility
  unsent : s.unsent ⊆ s'.unsent
  stalled : g ∈ s.stalled → g ∈ s'.stalled

namespace Untouched

variable {s s' s'' : Sending V}

theorem refl (s : Sending V) : Untouched g t s s :=
  ⟨rfl, rfl, List.Subset.refl _, fun h => h⟩

theorem trans (h : Untouched g t s s') (h' : Untouched g t s' s'') : Untouched g t s s'' :=
  ⟨h'.requests.trans h.requests, h'.rejected.trans h.rejected,
    fun _ hx => h'.unsent (h.unsent hx), fun hx => h'.stalled (h.stalled hx)⟩

theorem foldl {α : Type} {f : Sending V → α → Sending V} {items : List α}
    (h : ∀ item ∈ items, ∀ s, Untouched g t s (f s item)) (s : Sending V) :
    Untouched g t s (items.foldl f s) := by
  induction items generalizing s with
  | nil => exact refl s
  | cons item rest ih =>
      exact (h item (by simp) s).trans (ih (fun item' h' => h item' (by simp [h'])) _)

end Untouched

theorem EntityType.mem_all (t : EntityType) : t ∈ EntityType.all := by
  cases t <;> decide

namespace Sending

/-- The data that a type of a namespace sends. -/
def merged (entries : List (ProxyEntry V)) : Dict String V :=
  Dict.updates (entries.map ProxyEntry.data)

/-- What the iteration for one type of a namespace does. -/
structure SendsType (group : Namespace) (type_ : EntityType) (entries : List (ProxyEntry V))
    (s s' : Sending V) : Prop where
  adds : Wire.Adds (Wire.AboutPart group type_ (merged entries)) s.wire s'.wire
  held : group ∈ s.stalled → s'.wire = s.wire
  unsent : s.unsent ⊆ s'.unsent
  unsent_from : s'.unsent ⊆ s.unsent ++ entries.map ProxyEntry.id
  stalled : s.stalled ⊆ s'.stalled
  stalled_from : s'.stalled ⊆ s.stalled ++ [group]
  sent : ∃ new, s'.wire.requests = s.wire.requests ++ new ∧ ∀ key ∈ (merged entries).keys,
    (∀ e ∈ entries, key ∈ e.data.keys → e.id ∈ s'.unsent) ∨
      group ∉ s.stalled ∧ EntitySettled new group type_ key

theorem sendsType_entities (group : Namespace) (groupEntries : EntityType → List (ProxyEntry V))
    (s : Sending V) (type_ : EntityType) :
    SendsType group type_ (groupEntries type_) s (entities group groupEntries s type_) := by
  have hids : ∀ (ids : List Nat) (again : List (ProxyEntry V)), ∀ e ∈ again,
      e.id ∈ ids ++ again.map ProxyEntry.id := fun ids again e he =>
    List.mem_append_right _ (List.mem_map.2 ⟨e, he, rfl⟩)
  simp only [entities]
  split
  case isTrue hempty =>
    refine ⟨.refl _, fun _ => rfl, List.Subset.refl _, List.subset_append_left _ _,
      List.Subset.refl _, List.subset_append_left _ _, [], by simp, fun key hkey => ?_⟩
    rw [merged, Dict.keys, hempty] at hkey
    cases hkey
  case isFalse hdata =>
    split
    case isTrue hstalled =>
      exact ⟨.refl _, fun _ => rfl, List.subset_append_left _ _, List.Subset.refl _,
        List.Subset.refl _, List.subset_append_left _ _, [], by simp,
        fun key _ => .inl fun e he _ => hids _ _ e he⟩
    case isFalse hstalled =>
      obtain ⟨hadds, hagain, new, hnew, hsent⟩ :=
        s.wire.sendType_spec group type_ (groupEntries type_) (merged (groupEntries type_))
      unfold merged at hagain hnew hsent
      rw [merged] at hadds
      split
      case h_1 again wire heq =>
        rw [heq] at hadds hagain hnew hsent
        refine ⟨hadds, fun h => absurd h hstalled, List.subset_append_left _ _, ?_,
          List.subset_append_left _ _, List.Subset.refl _, new, hnew, fun key hkey => ?_⟩
        · exact List.append_subset.2 ⟨List.subset_append_left _ _,
            fun x hx => List.mem_append_right _ (List.map_subset _ hagain hx)⟩
        · rcases hsent key hkey with hsettled | ⟨-, hback⟩
          · exact .inr ⟨hstalled, hsettled⟩
          · exact .inl fun e he hcarried => hids _ _ e (hback e he hcarried)
      case h_2 outcome again wire hunsent heq =>
        rw [heq] at hadds hagain hnew hsent
        refine ⟨hadds, fun h => absurd h hstalled, List.Subset.refl _,
          List.subset_append_left _ _, List.Subset.refl _, List.subset_append_left _ _,
          new, hnew, fun key hkey => ?_⟩
        rcases hsent key hkey with hsettled | ⟨houtcome, -⟩
        · exact .inr ⟨hstalled, hsettled⟩
        · exact absurd houtcome fun houtcome => hunsent houtcome

theorem untouched_entities {group : Namespace} {groupEntries : EntityType → List (ProxyEntry V)}
    {type_ : EntityType} (h : ¬(group = g ∧ type_ = t)) (s : Sending V) :
    Untouched g t s (entities group groupEntries s type_) := by
  have hsends := sendsType_entities group groupEntries s type_
  refine ⟨hsends.adds.requestsFor_eq fun request hrequest => ?_, hsends.adds.1, hsends.unsent,
    fun hg => hsends.stalled hg⟩
  rw [hrequest.isAbout, decide_eq_false h]

theorem untouched_namespaceData {item : Namespace × (EntityType → List (ProxyEntry V))}
    (h : item.1 ≠ g) (s : Sending V) : Untouched g t s (s.namespaceData item) := by
  unfold namespaceData
  split
  case isTrue => exact .refl s
  case isFalse =>
    exact .foldl (fun type_ _ s => untouched_entities (fun heq => h heq.1) s) s

/-- Other namespaces do not stall this one. -/
theorem not_stalled_namespaceData {item : Namespace × (EntityType → List (ProxyEntry V))}
    (h : item.1 ≠ g) {s : Sending V} (hs : g ∉ s.stalled) : g ∉ (s.namespaceData item).stalled := by
  unfold namespaceData
  split
  case isTrue => exact hs
  case isFalse hdrops =>
    clear hdrops
    generalize EntityType.all = types
    induction types generalizing s with
    | nil => exact hs
    | cons type_ rest ih =>
        refine ih fun hg => ?_
        have hfrom := (sendsType_entities item.1 item.2 s type_).stalled_from hg
        rcases List.mem_append.1 hfrom with hg | hg
        · exact hs hg
        · exact h (List.mem_singleton.1 hg).symm

/-- What the iteration for the namespace does to one of its types. -/
theorem namespaceData_self (groupEntries : EntityType → List (ProxyEntry V)) {s : Sending V}
    (hdrops : s.drops g = false) :
    ∃ new : List (Request V),
      (∀ request ∈ new, Wire.AboutPart g t (merged (groupEntries t)) request) ∧
      requestsFor g t (s.namespaceData (g, groupEntries)).wire.requests =
        requestsFor g t s.wire.requests ++ new ∧
      ∀ key ∈ (merged (groupEntries t)).keys,
        (∀ e ∈ groupEntries t, key ∈ e.data.keys →
          e.id ∈ (s.namespaceData (g, groupEntries)).unsent) ∨
        g ∉ s.stalled ∧ EntitySettled new g t key := by
  obtain ⟨before, after, hall⟩ := List.append_of_mem t.mem_all
  have hdistinct : (before ++ t :: after).Nodup := hall ▸ by decide
  rw [List.nodup_middle, List.nodup_cons, List.mem_append, not_or] at hdistinct
  obtain ⟨⟨hbefore, hafter⟩, -⟩ := hdistinct
  have hother : ∀ types : List EntityType, t ∉ types → ∀ s : Sending V,
      Untouched g t s (types.foldl (entities g groupEntries) s) := by
    intro types htypes s
    refine .foldl (fun type_ htype s => untouched_entities ?_ s) s
    rintro ⟨-, rfl⟩
    exact htypes htype
  have hfirst := hother before hbefore s
  have hsends := sendsType_entities g groupEntries (before.foldl (entities g groupEntries) s) t
  have hlast := hother after hafter
    (entities g groupEntries (before.foldl (entities g groupEntries) s) t)
  have hfold : s.namespaceData (g, groupEntries) = after.foldl (entities g groupEntries)
      (entities g groupEntries (before.foldl (entities g groupEntries) s) t) := by
    simp only [namespaceData, hdrops, hall, List.foldl_append, List.foldl_cons]
    rfl
  obtain ⟨-, new, hnew, habout⟩ := hsends.adds
  obtain ⟨new', hnew', hdone⟩ := hsends.sent
  obtain rfl : new = new' := List.append_cancel_left (hnew.symm.trans hnew')
  have hself : requestsFor g t new = new := by
    rw [requestsFor, List.filter_eq_self]
    intro request hrequest
    rw [(habout request hrequest).isAbout]
    simp
  rw [hfold]
  refine ⟨new, habout, ?_, fun key hkey => ?_⟩
  · rw [hlast.requests, hnew, requestsFor_append, hself, hfirst.requests]
  · rcases hdone key hkey with hunsent | ⟨hstalled, hsettled⟩
    · exact .inl fun e he hcarried => hlast.unsent (hunsent e he hcarried)
    · exact .inr ⟨fun hg => hstalled (hfirst.stalled hg), hsettled⟩

/-- The entries that a batch sends for a namespace and a type. -/
def pendingFor (pending : Dict Namespace (EntityType → List (ProxyEntry V))) (g : Namespace)
    (t : EntityType) : List (ProxyEntry V) :=
  ((pending.get? g).getD fun _ => []) t

/-- What the iterations for all namespaces do to one type of one of them. -/
theorem foldl_namespaceData_spec (pending : Dict Namespace (EntityType → List (ProxyEntry V)))
    (s : Sending V) :
    ∃ new : List (Request V),
      (∀ request ∈ new, Wire.AboutPart g t (merged (pendingFor pending g t)) request) ∧
      requestsFor g t (pending.items.foldl namespaceData s).wire.requests =
        requestsFor g t s.wire.requests ++ new ∧
      (s.drops g = false → ∀ key ∈ (merged (pendingFor pending g t)).keys,
        (∀ e ∈ pendingFor pending g t, key ∈ e.data.keys →
          e.id ∈ (pending.items.foldl namespaceData s).unsent) ∨
        g ∉ s.stalled ∧ EntitySettled new g t key) := by
  have hother : ∀ items : List (Namespace × (EntityType → List (ProxyEntry V))),
      g ∉ items.map Prod.fst → ∀ s : Sending V, Untouched g t s (items.foldl namespaceData s) := by
    intro items hitems s
    refine .foldl (fun item hitem s => untouched_namespaceData ?_ s) s
    rintro rfl
    exact hitems (List.mem_map.2 ⟨item, hitem, rfl⟩)
  unfold pendingFor
  cases hg : pending.get? g with
  | none =>
      have hkeys : g ∉ pending.items.map Prod.fst := fun hmem => by
        obtain ⟨value, hvalue⟩ := Dict.mem_keys_iff.1 hmem
        rw [hg] at hvalue
        cases hvalue
      exact ⟨[], by simp, by simpa using (hother _ hkeys s).requests,
        fun _ key hkey => absurd hkey List.not_mem_nil⟩
  | some groupEntries =>
      obtain ⟨before, after, hitems⟩ := List.append_of_mem (Dict.mem_items_iff.2 hg)
      have hdistinct := pending.distinct
      rw [hitems, List.map_append, List.map_cons, List.nodup_middle, List.nodup_cons,
        List.mem_append, not_or] at hdistinct
      obtain ⟨⟨hbefore, hafter⟩, -⟩ := hdistinct
      have hfirst := hother before hbefore s
      have hlast := hother after hafter
        ((before.foldl namespaceData s).namespaceData (g, groupEntries))
      -- The namespaces before this one do not stall it, so it is dropped or not as at first.
      have hdrops : (before.foldl namespaceData s).drops g = s.drops g := by
        have hstalled : g ∈ (before.foldl namespaceData s).stalled ↔ g ∈ s.stalled := by
          refine ⟨fun hmem => ?_, hfirst.stalled⟩
          by_contra hnot
          have hstill : g ∉ (before.foldl namespaceData s).stalled := by
            refine List.foldlRecOn (motive := fun s : Sending V => g ∉ s.stalled) before _ hnot ?_
            intro s' hs' item hitem
            refine not_stalled_namespaceData ?_ hs'
            rintro rfl
            exact hbefore (List.mem_map.2 ⟨item, hitem, rfl⟩)
          exact hstill hmem
        simp only [drops, hfirst.rejected, hstalled]
      simp only [Option.getD_some]
      rw [hitems, List.foldl_append, List.foldl_cons, hlast.requests, ← hfirst.requests]
      cases hdropped : s.drops g with
      | true =>
          rw [hdropped] at hdrops
          refine ⟨[], by simp, ?_, by simp⟩
          rw [namespaceData, if_pos hdrops, List.append_nil]
      | false =>
          rw [hdropped] at hdrops
          obtain ⟨new, habout, hrequests, hdone⟩ :=
            namespaceData_self (t := t) groupEntries hdrops
          refine ⟨new, habout, hrequests, fun _ key hkey => ?_⟩
          rcases hdone key hkey with hunsent | ⟨hstalled, hsettled⟩
          · exact .inl fun e he hcarried => hlast.unsent (hunsent e he hcarried)
          · exact .inr ⟨fun hmem => hstalled (hfirst.stalled hmem), hsettled⟩

/-- The entries that go back for the data of the namespaces were pending. -/
theorem unsent_foldl_namespaceData (pending : Dict Namespace (EntityType → List (ProxyEntry V)))
    {s : Sending V} {id : Nat} (h : id ∈ (pending.items.foldl namespaceData s).unsent) :
    id ∈ s.unsent ∨ ∃ g t, ∃ e ∈ pendingFor pending g t, e.id = id := by
  let Known (s' : Sending V) : Prop := ∀ id ∈ s'.unsent,
    id ∈ s.unsent ∨ ∃ g t, ∃ e ∈ pendingFor pending g t, e.id = id
  suffices hknown : Known (pending.items.foldl namespaceData s) from hknown id h
  refine List.foldlRecOn (motive := Known) pending.items _ (fun _ => .inl) ?_
  intro s' hs' item hitem
  have hpending : ∀ t, pendingFor pending item.1 t = item.2 t := fun t => by
    rw [pendingFor, Dict.mem_items_iff.1 hitem, Option.getD_some]
  unfold namespaceData
  split
  case isTrue => exact hs'
  case isFalse =>
    refine List.foldlRecOn (motive := Known) EntityType.all _ hs' ?_
    intro s'' hs'' t _ id hid
    rcases List.mem_append.1 ((sendsType_entities item.1 item.2 s'' t).unsent_from hid) with
      hid | hid
    · exact hs'' id hid
    · obtain ⟨e, he, rfl⟩ := List.mem_map.1 hid
      exact .inr ⟨item.1, t, e, (hpending t).symm ▸ he, rfl⟩

/-! ### Resets and visibility settings -/

/-- What the resets and the settings of a batch leave behind: no request about entities,
and only entries of their own, a reset only where the namespace is stalled. -/
structure Settled (batch : Batch V) (wire : Wire V) (s : Sending V) : Prop where
  requests : ∀ g t, requestsFor g t s.wire.requests = requestsFor g t wire.requests
  unsent : ∀ id ∈ s.unsent,
    (∃ h e, batch.resets.get? h = some e ∧ e.id = id ∧ h ∈ s.stalled) ∨
      ∃ h e, batch.visibilities.get? h = some e ∧ e.id = id

theorem settled_reset {batch : Batch V} {wire : Wire V} {s : Sending V}
    (h : Settled batch wire s) {item : Namespace × ProxyEntry V} (hitem : item ∈ batch.resets.items) :
    Settled batch wire (s.reset item) := by
  have hsame : ∀ g t, requestsFor g t (s.wire.sendReset item.1 Wire.resetResourcePaths).2.requests =
      requestsFor g t s.wire.requests := fun g t =>
    (s.wire.adds_sendReset item.1 Wire.resetResourcePaths).requestsFor_eq
      fun _ hrequest => Wire.isAbout_of_reset hrequest.2
  unfold reset
  split
  case h_1 w heq =>
    rw [heq] at hsame
    refine ⟨fun g t => (hsame g t).trans (h.requests g t), fun id hid => ?_⟩
    rcases List.mem_append.1 hid with hid | hid
    · rcases h.unsent id hid with ⟨g, e, he, hid, hstalled⟩ | hvisibility
      · exact .inl ⟨g, e, he, hid, List.mem_append_left _ hstalled⟩
      · exact .inr hvisibility
    · refine .inl ⟨item.1, item.2, Dict.mem_items_iff.1 hitem, (List.mem_singleton.1 hid).symm, ?_⟩
      simp
  case h_2 outcome w _ heq =>
    rw [heq] at hsame
    exact ⟨fun g t => (hsame g t).trans (h.requests g t), h.unsent⟩

theorem settled_visibility {batch : Batch V} {wire : Wire V} {s : Sending V}
    (h : Settled batch wire s) {item : Namespace × ProxyEntry V}
    (hitem : item ∈ batch.visibilities.items) : Settled batch wire (s.visibility item) := by
  have hsame : ∀ g t, requestsFor g t (s.wire.attempt item.1
      (.visibility item.2.id item.2.settings)).2.requests = requestsFor g t s.wire.requests :=
    fun g t => (s.wire.adds_attempt item.1 _).requestsFor_eq
      fun _ hrequest => Wire.isAbout_of_visibility ⟨_, _, hrequest.2⟩
  have hown : ∀ id ∈ s.unsent ++ [item.2.id], ∀ stalled, s.stalled ⊆ stalled →
      (∃ h e, batch.resets.get? h = some e ∧ e.id = id ∧ h ∈ stalled) ∨
        ∃ h e, batch.visibilities.get? h = some e ∧ e.id = id := by
    intro id hid stalled hsub
    rcases List.mem_append.1 hid with hid | hid
    · rcases h.unsent id hid with ⟨g, e, he, hid, hstalled⟩ | hvisibility
      · exact .inl ⟨g, e, he, hid, hsub hstalled⟩
      · exact .inr hvisibility
    · exact .inr ⟨item.1, item.2, Dict.mem_items_iff.1 hitem, (List.mem_singleton.1 hid).symm⟩
  unfold visibility
  split
  case isTrue => exact ⟨h.requests, fun id hid => hown id hid _ (List.Subset.refl _)⟩
  case isFalse =>
    split
    case h_1 w heq =>
      rw [heq] at hsame
      refine ⟨fun g t => ?_, fun id hid => hown id hid _ (List.subset_append_left _ _)⟩
      rw [Wire.trackVisibility_requests]
      exact (hsame g t).trans (h.requests g t)
    case h_2 outcome w _ heq =>
      rw [heq] at hsame
      refine ⟨fun g t => ?_, h.unsent⟩
      rw [Wire.trackVisibility_requests]
      exact (hsame g t).trans (h.requests g t)

theorem settled_settings (batch : Batch V) (wire : Wire V) :
    Settled batch wire (settings batch wire) := by
  refine List.foldlRecOn (motive := Settled batch wire) batch.visibilities.items _ ?_
    fun s hs item hitem => settled_visibility hs hitem
  refine List.foldlRecOn (motive := Settled batch wire) batch.resets.items _ ?_
    fun s hs item hitem => settled_reset hs hitem
  exact ⟨fun _ _ => rfl, by simp⟩

end Sending

/-! ### The entries of a batch -/

/-- The operation empties the namespace. -/
def ProxyOperation.resets (g : Namespace) : ProxyOperation V → Bool
  | ⟨.reset, group⟩ => group = g
  | _ => false

/-- The entities that an operation sends in a namespace, under a type. -/
def ProxyOperation.dataFor (g : Namespace) (t : EntityType) :
    ProxyOperation V → Option (Dict String V)
  | ⟨.entities type_ data, group⟩ => if group = g ∧ type_ = t then some data else none
  | _ => none

namespace Batch

open Sending

theorem ofEntries_concat (entries : List (ProxyEntry V)) (e : ProxyEntry V) :
    ofEntries (entries ++ [e]) = (ofEntries entries).add e := by
  simp [ofEntries]

/-- How an entry changes what is pending. -/
theorem pendingFor_add (batch : Batch V) (e : ProxyEntry V) :
    pendingFor (batch.add e).pending g t =
      if e.item.operation.resets g then []
      else pendingFor batch.pending g t ++ if (e.item.operation.dataFor g t).isSome then [e] else [] := by
  obtain ⟨⟨id, ⟨payload, group⟩⟩, priority, timestamp, index⟩ := e
  cases payload with
  | reset =>
      simp only [add, pendingFor, ProxyOperation.resets, ProxyOperation.dataFor, Dict.get?_erase,
        decide_eq_true_eq, eq_comm (a := g)]
      split <;> simp
  | visibility settings => simp [add, pendingFor, ProxyOperation.resets, ProxyOperation.dataFor]
  | entities type_ data =>
      simp only [add, pendingFor, ProxyOperation.resets, ProxyOperation.dataFor, Dict.get?_set,
        eq_comm (a := g)]
      by_cases hgroup : group = g
      · subst hgroup
        by_cases htype : t = type_
        · simp [htype]
        · simp [htype, Ne.symm htype]
      · simp [hgroup]

/-- The entries pending for a type send entities of that type. -/
theorem dataFor_of_mem_pendingFor {entries : List (ProxyEntry V)} {e : ProxyEntry V}
    (h : e ∈ pendingFor (ofEntries entries).pending g t) : (e.item.operation.dataFor g t).isSome := by
  induction entries using List.reverseRecOn with
  | nil => cases h
  | append_singleton entries last ih =>
      rw [ofEntries_concat, pendingFor_add] at h
      split at h
      case isTrue => cases h
      case isFalse =>
        rcases List.mem_append.1 h with h | h
        · exact ih h
        · split at h
          case isTrue hdata =>
            rw [List.mem_singleton.1 h]
            exact hdata
          case isFalse => cases h

theorem pendingFor_sublist (entries : List (ProxyEntry V)) :
    (pendingFor (ofEntries entries).pending g t).Sublist entries := by
  induction entries using List.reverseRecOn with
  | nil => exact List.Sublist.refl _
  | append_singleton entries last ih =>
      rw [ofEntries_concat, pendingFor_add]
      split
      case isTrue => exact List.nil_sublist _
      case isFalse =>
        refine ih.append ?_
        split
        case isTrue => exact List.Sublist.refl _
        case isFalse => exact List.nil_sublist _

/-- What follows the last reset of its namespace is pending. -/
theorem mem_pendingFor {entries : List (ProxyEntry V)}
    (hsorted : entries.Pairwise fun e f => e.id < f.id) {e : ProxyEntry V} (he : e ∈ entries)
    (hdata : (e.item.operation.dataFor g t).isSome)
    (hresets : ∀ r ∈ entries, r.item.operation.resets g → r.id < e.id) :
    e ∈ pendingFor (ofEntries entries).pending g t := by
  induction entries using List.reverseRecOn with
  | nil => cases he
  | append_singleton entries last ih =>
      rw [List.pairwise_append] at hsorted
      obtain ⟨hsorted, -, hbefore⟩ := hsorted
      rw [ofEntries_concat, pendingFor_add]
      rcases List.mem_append.1 he with he | he
      · have hlast : ¬last.item.operation.resets g := fun hreset =>
          absurd (hresets last (by simp) hreset) (by have := hbefore e he last (by simp); omega)
        rw [if_neg hlast]
        exact List.mem_append_left _ (ih hsorted he fun r hr => hresets r (by simp [hr]))
      · rw [List.mem_singleton] at he
        subst he
        have hself : ¬e.item.operation.resets g := fun hreset => by
          have := hresets e (by simp) hreset
          omega
        rw [if_neg hself, if_pos hdata]
        simp

/-- The resets and the settings of a batch are entries of their kind. -/
theorem resets_ofEntries {entries : List (ProxyEntry V)} {e : ProxyEntry V}
    (h : (ofEntries entries).resets.get? g = some e) : e ∈ entries ∧ e.item.operation.resets g := by
  induction entries using List.reverseRecOn with
  | nil => cases h
  | append_singleton entries last ih =>
      rw [ofEntries_concat] at h
      obtain ⟨⟨id, ⟨payload, group⟩⟩, priority, timestamp, index⟩ := last
      cases payload with
      | reset =>
          simp only [add, Dict.get?_set] at h
          split at h
          case isTrue heq =>
            cases h
            simp [ProxyOperation.resets, heq]
          case isFalse =>
            obtain ⟨hmem, hresets⟩ := ih h
            exact ⟨List.mem_append_left _ hmem, hresets⟩
      | visibility settings =>
          obtain ⟨hmem, hresets⟩ := ih h
          exact ⟨List.mem_append_left _ hmem, hresets⟩
      | entities type_ data =>
          obtain ⟨hmem, hresets⟩ := ih h
          exact ⟨List.mem_append_left _ hmem, hresets⟩

theorem visibilities_ofEntries {entries : List (ProxyEntry V)} {e : ProxyEntry V}
    (h : (ofEntries entries).visibilities.get? g = some e) :
    e ∈ entries ∧ ∃ settings, e.item.operation = ⟨.visibility settings, g⟩ := by
  induction entries using List.reverseRecOn with
  | nil => cases h
  | append_singleton entries last ih =>
      rw [ofEntries_concat] at h
      obtain ⟨⟨id, ⟨payload, group⟩⟩, priority, timestamp, index⟩ := last
      cases payload with
      | visibility settings =>
          simp only [add, Dict.get?_set] at h
          split at h
          case isTrue heq =>
            cases h
            exact ⟨by simp, settings, by rw [heq]⟩
          case isFalse =>
            obtain ⟨hmem, hsettings⟩ := ih h
            exact ⟨List.mem_append_left _ hmem, hsettings⟩
      | reset =>
          obtain ⟨hmem, hsettings⟩ := ih h
          exact ⟨List.mem_append_left _ hmem, hsettings⟩
      | entities type_ data =>
          obtain ⟨hmem, hsettings⟩ := ih h
          exact ⟨List.mem_append_left _ hmem, hsettings⟩

/-- A namespace with something pending has an entry in the batch. -/
theorem exists_mem_of_pending {entries : List (ProxyEntry V)}
    {groupEntries : EntityType → List (ProxyEntry V)}
    (h : (ofEntries entries).pending.get? g = some groupEntries) : ∃ e ∈ entries, e.group = g := by
  induction entries using List.reverseRecOn generalizing groupEntries with
  | nil => cases h
  | append_singleton entries last ih =>
      have hold : ∀ groupEntries, (ofEntries entries).pending.get? g = some groupEntries →
          ∃ e ∈ entries ++ [last], e.group = g := fun groupEntries h' => by
        obtain ⟨e, he, hgroup⟩ := ih h'
        exact ⟨e, List.mem_append_left _ he, hgroup⟩
      rw [ofEntries_concat] at h
      obtain ⟨⟨id, ⟨payload, group⟩⟩, priority, timestamp, index⟩ := last
      cases payload with
      | visibility settings => exact hold _ h
      | reset =>
          simp only [add, Dict.get?_erase] at h
          split at h
          case isTrue => cases h
          case isFalse => exact hold _ h
      | entities type_ data =>
          simp only [add, Dict.get?_set] at h
          split at h
          case isTrue heq => exact ⟨_, List.mem_append_right _ (List.mem_singleton_self _), heq.symm⟩
          case isFalse => exact hold _ h

end Batch

/-! ### The whole batch -/

theorem ProxyOperation.resets_iff {operation : ProxyOperation V} :
    operation.resets g = true ↔ operation = ⟨.reset, g⟩ := by
  obtain ⟨payload, group⟩ := operation
  cases payload <;> simp [resets]

theorem ProxyOperation.dataFor_eq_some_iff {operation : ProxyOperation V}
    {data : Dict String V} :
    operation.dataFor g t = some data ↔ operation = ⟨.entities t data, g⟩ := by
  obtain ⟨payload, group⟩ := operation
  cases payload <;> simp [dataFor, and_assoc, and_left_comm, and_comm]

/-- Entries of one batch with the same id are the same. -/
theorem eq_of_id_eq {entries : List (ProxyEntry V)}
    (hsorted : entries.Pairwise fun e f => e.id < f.id) {e f : ProxyEntry V} (he : e ∈ entries)
    (hf : f ∈ entries) (h : e.id = f.id) : e = f := by
  have hnodup : (entries.map ProxyEntry.id).Nodup := by
    rw [List.Nodup, List.pairwise_map]
    exact hsorted.imp fun hlt => Nat.ne_of_lt hlt
  exact List.inj_on_of_nodup_map hnodup he hf h

namespace Sending

variable {entries : List (ProxyEntry V)} {wire : Wire V}

/-- What a batch sends for a namespace and a type, and what becomes of the entities. -/
theorem sendBatch_requests (entries : List (ProxyEntry V)) (wire : Wire V) :
    ∃ new : List (Request V),
      (∀ request ∈ new,
        Wire.AboutPart g t (merged (pendingFor (Batch.ofEntries entries).pending g t)) request) ∧
      requestsFor g t (sendBatch entries wire).wire.requests =
        requestsFor g t wire.requests ++ new ∧
      ((settings (Batch.ofEntries entries) wire).drops g = false →
        ∀ key ∈ (merged (pendingFor (Batch.ofEntries entries).pending g t)).keys,
          (∀ e ∈ pendingFor (Batch.ofEntries entries).pending g t, key ∈ e.data.keys →
            e.id ∈ (sendBatch entries wire).unsent) ∨
          g ∉ (settings (Batch.ofEntries entries) wire).stalled ∧ EntitySettled new g t key) := by
  have h := foldl_namespaceData_spec (g := g) (t := t) (Batch.ofEntries entries).pending
    (settings (Batch.ofEntries entries) wire)
  rw [(settled_settings (Batch.ofEntries entries) wire).requests g t] at h
  exact h

/-- Where the entries that go back come from. -/
theorem mem_unsent (hsorted : entries.Pairwise fun e f => e.id < f.id) {e : ProxyEntry V}
    (he : e ∈ entries) (hunsent : e.id ∈ (sendBatch entries wire).unsent) :
    (∃ g, e.item.operation.resets g ∧ g ∈ (settings (Batch.ofEntries entries) wire).stalled) ∨
      (∃ g settings, e.item.operation = ⟨.visibility settings, g⟩) ∨
      ∃ g t, e ∈ pendingFor (Batch.ofEntries entries).pending g t := by
  rcases unsent_foldl_namespaceData (Batch.ofEntries entries).pending hunsent with
    hsettings | ⟨g, t, f, hf, hid⟩
  · rcases (settled_settings _ wire).unsent _ hsettings with ⟨g, f, hf, hid, hstalled⟩ | ⟨g, f, hf, hid⟩
    · obtain ⟨hmem, hresets⟩ := Batch.resets_ofEntries hf
      obtain rfl := eq_of_id_eq hsorted hmem he hid
      exact .inl ⟨g, hresets, hstalled⟩
    · obtain ⟨hmem, hvisibility⟩ := Batch.visibilities_ofEntries hf
      obtain rfl := eq_of_id_eq hsorted hmem he hid
      exact .inr (.inl ⟨g, hvisibility⟩)
  · obtain rfl := eq_of_id_eq hsorted ((Batch.pendingFor_sublist entries).subset hf) he hid
    exact .inr (.inr ⟨g, t, hf⟩)

/-- Only what is pending goes back with its data. -/
theorem pending_of_unsent (hsorted : entries.Pairwise fun e f => e.id < f.id) {e : ProxyEntry V}
    (he : e ∈ entries) {data : Dict String V} (hdata : e.item.operation.dataFor g t = some data)
    (hunsent : e.id ∈ (sendBatch entries wire).unsent) :
    e ∈ pendingFor (Batch.ofEntries entries).pending g t := by
  rw [ProxyOperation.dataFor_eq_some_iff] at hdata
  rcases mem_unsent hsorted he hunsent with ⟨g', hreset, -⟩ | ⟨g', settings, hvisibility⟩ | ⟨g', t', h⟩
  · rw [ProxyOperation.resets_iff, hdata] at hreset
    cases hreset
  · rw [hdata] at hvisibility
    cases hvisibility
  · obtain ⟨data', hdata'⟩ := Option.isSome_iff_exists.1 (Batch.dataFor_of_mem_pendingFor h)
    rw [ProxyOperation.dataFor_eq_some_iff, hdata] at hdata'
    cases hdata'
    exact h

/-- A reset goes back only when its namespace is stalled. -/
theorem stalled_of_unsent (hsorted : entries.Pairwise fun e f => e.id < f.id) {e : ProxyEntry V}
    (he : e ∈ entries) (hreset : e.item.operation.resets g)
    (hunsent : e.id ∈ (sendBatch entries wire).unsent) :
    g ∈ (settings (Batch.ofEntries entries) wire).stalled := by
  rw [ProxyOperation.resets_iff] at hreset
  rcases mem_unsent hsorted he hunsent with
    ⟨g', hreset', hstalled⟩ | ⟨g', settings, hvisibility⟩ | ⟨g', t', h⟩
  · rw [ProxyOperation.resets_iff, hreset] at hreset'
    cases hreset'
    exact hstalled
  · rw [hreset] at hvisibility
    cases hvisibility
  · obtain ⟨data', hdata'⟩ := Option.isSome_iff_exists.1 (Batch.dataFor_of_mem_pendingFor h)
    rw [ProxyOperation.dataFor_eq_some_iff, hreset] at hdata'
    cases hdata'

end Sending

end Service
end ContestManagement
