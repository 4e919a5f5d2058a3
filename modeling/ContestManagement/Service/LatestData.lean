import ContestManagement.Service.ProxyQueue

/-!
# The ranking ends with the latest data

For one entity of one namespace, the last operation that carries it is live until the
ranking has answered about its value; from then on no live entry carries the entity, so
nothing overwrites it.

Three things break this.  Data of a namespace whose visibility settings stand refused is
dropped without being sent.  When an entity of a split is refused for another reason than
invalid data, the entities after it are dropped without being tried.  And when the ranking
stops answering in the middle of a split, an entry that goes back may carry an entity that
a later entry of the batch has overwritten, while the later entry counts as sent.  Only
what befalls the last operation matters: operations that are sent again after a loss make
up for it.
-/

namespace ContestManagement
namespace Service

open Lib Io

variable {V : Type} {g : Namespace} {t : EntityType} {k : String}

/-- The value that an operation has for an entity. -/
def ProxyOperation.valueFor (g : Namespace) (t : EntityType) (k : String)
    (operation : ProxyOperation V) : Option V :=
  (operation.dataFor g t).bind fun data => data.get? k

/-- The operation with number `n` is the last one to carry the entity, with this value,
and the namespace is not reset after it. -/
structure Latest (enqueued : List (ProxyOperation V)) (g : Namespace) (t : EntityType) (k : String)
    (n : Nat) (v : V) : Prop where
  value : ∃ operation, enqueued[n]? = some operation ∧ operation.valueFor g t k = some v
  last : ∀ m operation, enqueued[m]? = some operation →
    (operation.valueFor g t k).isSome → m ≤ n
  resets : ∀ m operation, enqueued[m]? = some operation → operation.resets g → m < n

/-- The entities that an event tells to have been taken or refused. -/
def ProxyEvent.answer : ProxyEvent V → Option (Answer V)
  | taken _ => none
  | requested request => request.answer

/-- The last value of an entity that the ranking took or refused. -/
def lastAnswered (trace : List (ProxyEvent V)) (g : Namespace) (t : EntityType) (k : String) :
    Option V :=
  ((answersFor g t (trace.filterMap ProxyEvent.answer)).filterMap fun data => data.get? k).getLast?

/-! ### Traces and merged data -/

theorem lastAnswered_taken (trace : List (ProxyEvent V)) (items : List (ProxyItem V)) :
    lastAnswered (trace ++ items.map .taken) g t k = lastAnswered trace g t k := by
  have hnone : (items.map ProxyEvent.taken).filterMap ProxyEvent.answer = [] := by
    rw [List.filterMap_map, List.filterMap_eq_nil_iff]
    intro item _
    rfl
  rw [lastAnswered, List.filterMap_append, hnone, List.append_nil]
  rfl

theorem filterMap_answer_requested (requests : List (Request V)) :
    (requests.map ProxyEvent.requested).filterMap ProxyEvent.answer =
      requests.filterMap Request.answer := by
  rw [List.filterMap_map]
  rfl

/-- What the answers of a round do to the last value. -/
theorem lastAnswered_requested (trace : List (ProxyEvent V)) (w : Wire V) :
    lastAnswered (trace ++ w.requests.map .requested) g t k =
      (((answersFor g t w.answered).filterMap fun data => data.get? k).getLast?).or
        (lastAnswered trace g t k) := by
  rw [lastAnswered, List.filterMap_append, filterMap_answer_requested, answersFor_append,
    List.filterMap_append, List.getLast?_append]
  rfl

/-- In a sorted list, the last value is the one of the last entry that has one. -/
theorem getLast?_filterMap_of_last {entries : List (ProxyEntry V)} {f : ProxyEntry V → Option V}
    (hsorted : entries.Pairwise fun e e' => e.id < e'.id) {e : ProxyEntry V} (he : e ∈ entries)
    {v : V} (hv : f e = some v) (hlast : ∀ e' ∈ entries, (f e').isSome → e'.id ≤ e.id) :
    (entries.filterMap f).getLast? = some v := by
  obtain ⟨before, after, rfl⟩ := List.append_of_mem he
  rw [List.pairwise_append, List.pairwise_cons] at hsorted
  have hafter : after.filterMap f = [] := by
    rw [List.filterMap_eq_nil_iff]
    intro e' he'
    by_contra hsome
    have hle := hlast e' (by simp [he']) (Option.isSome_iff_ne_none.2 hsome)
    have hlt := hsorted.2.1.1 e' he'
    omega
  rw [List.filterMap_append, List.filterMap_cons, hv, hafter, List.getLast?_append]
  simp

/-- When every part that has a key has the same value for it, and one has, that value is
the last one. -/
theorem getLast?_filterMap_of_const {parts : List (Dict String V)} {v : V}
    (hconst : ∀ part ∈ parts, ∀ w, part.get? k = some w → w = v) {part : Dict String V}
    (hpart : part ∈ parts) (hv : part.get? k = some v) :
    (parts.filterMap fun part => part.get? k).getLast? = some v := by
  have hne : (parts.filterMap fun part => part.get? k) ≠ [] := by
    intro hnil
    rw [List.filterMap_eq_nil_iff] at hnil
    rw [hnil part hpart] at hv
    cases hv
  have hmem := List.getLast_mem hne
  rw [List.mem_filterMap] at hmem
  obtain ⟨part', hpart', hw⟩ := hmem
  rw [List.getLast?_eq_getLast_of_ne_nil hne, hconst part' hpart' _ hw]

theorem get?_merged (entries : List (ProxyEntry V)) :
    (Sending.merged entries).get? k = (entries.filterMap fun e => e.data.get? k).getLast? := by
  rw [Sending.merged, Dict.get?_updates, List.filterMap_map]
  rfl

/-- The value of an entry that sends entities of the type. -/
theorem valueFor_eq {e : ProxyEntry V} (h : (e.item.operation.dataFor g t).isSome) :
    e.item.operation.valueFor g t k = e.data.get? k := by
  obtain ⟨data, hdata⟩ := Option.isSome_iff_exists.1 h
  rw [ProxyOperation.valueFor, hdata, Option.bind_some]
  rw [ProxyOperation.dataFor_eq_some_iff] at hdata
  rw [ProxyEntry.data, hdata]

theorem dataFor_of_valueFor {operation : ProxyOperation V}
    (h : (operation.valueFor g t k).isSome) : (operation.dataFor g t).isSome := by
  rw [ProxyOperation.valueFor] at h
  cases hdata : operation.dataFor g t with
  | none => simp [hdata] at h
  | some data => rfl

theorem group_of_dataFor {e : ProxyEntry V} (h : (e.item.operation.dataFor g t).isSome) :
    e.group = g := by
  obtain ⟨data, hdata⟩ := Option.isSome_iff_exists.1 h
  rw [ProxyOperation.dataFor_eq_some_iff] at hdata
  rw [ProxyEntry.group, hdata]

theorem group_of_resets {e : ProxyEntry V} (h : e.item.operation.resets g) : e.group = g := by
  rw [ProxyOperation.resets_iff] at h
  rw [ProxyEntry.group, h]

namespace ProxyExecutor

variable {ex ex' : ProxyExecutor V}

/-- The entries that a round sends for a namespace and a type. -/
def pending (ex : ProxyExecutor V) (round : ProxyRound V) (g : Namespace) (t : EntityType) :
    List (ProxyEntry V) :=
  Sending.pendingFor (Batch.ofEntries (ex.ready round)).pending g t

/-- The round drops the data of a namespace, because its settings stand refused. -/
def drops (ex : ProxyExecutor V) (round : ProxyRound V) (responses : List Response)
    (g : Namespace) : Bool :=
  (Sending.settings (Batch.ofEntries (ex.ready round)) (ex.wire responses)).drops g

/-- What a round may not do to operation number `n`, if its value for an entity is to be
the last one: drop it because the settings of its namespace stand refused, drop its entity
untried, or put back an earlier operation with the entity while this one counts as sent. -/
structure KeepsLatest (ex : ProxyExecutor V) (round : ProxyRound V) (responses : List Response)
    (g : Namespace) (t : EntityType) (k : String) (n : Nat) : Prop where
  taken : ex.drops round responses g → ∀ f ∈ ex.pending round g t, f.id ≠ n
  tried : leftUntried (ex.sendReady round responses).wire.requests g t k →
    ∀ f ∈ ex.pending round g t, f.id ≠ n
  notOvertaken : ∀ f ∈ ex.pending round g t, f.id = n →
    ∀ e ∈ ex.pending round g t, e.id < f.id → (e.data.get? k).isSome →
      e.id ∈ (ex.sendReady round responses).unsent → f.id ∈ (ex.sendReady round responses).unsent

/-- The rounds of a run that take operation number `n` keep its value for an entity. -/
def RoundsKeepLatest (g : Namespace) (t : EntityType) (k : String) (n : Nat)
    (ex : ProxyExecutor V) : ProxyAction V → Prop
  | .finishRound responses _ => ∀ round ∈ ex.round, ex.KeepsLatest round responses g t k n
  | _ => True

/-- If operation number `n` has the latest value, it is live, or its value is the last one
answered and nothing live touches the entity. -/
def LatestKept (ex : ProxyExecutor V) (g : Namespace) (t : EntityType) (k : String) (n : Nat) :
    Prop :=
  ∀ v, Latest ex.enqueued g t k n v →
    (∃ e ∈ ex.live, e.id = n) ∨
      lastAnswered ex.trace g t k = some v ∧
        ∀ e ∈ ex.live, e.item.operation.resets g = false ∧
          e.item.operation.valueFor g t k = none

/-- What was enqueued after the latest value neither carries the entity nor resets its
namespace. -/
theorem untouched_later {enqueued : List (ProxyOperation V)} {n : Nat} {v : V}
    (h : Latest enqueued g t k n v) {m : Nat} {operation : ProxyOperation V}
    (hm : enqueued[m]? = some operation) (hlater : n < m) :
    operation.resets g = false ∧ operation.valueFor g t k = none := by
  constructor
  · by_contra hreset
    have hlt := h.resets m operation hm (by simpa using hreset)
    omega
  · by_contra hsome
    have hle := h.last m operation hm (Option.isSome_iff_ne_none.2 hsome)
    omega

theorem LatestKept.enqueue {n : Nat} (h : LatestKept ex g t k n) (horder : InOrder ex)
    (operation : ProxyOperation V) (now : ℤ) : LatestKept (ex.enqueue operation now) g t k n := by
  intro v hlatest
  have hnew : (ex.enqueue operation now).enqueued[ex.enqueued.length]? = some operation := by
    simp [ProxyExecutor.enqueue]
  by_cases hn : n = ex.enqueued.length
  · refine .inl ⟨ex.newEntry operation now, ?_, hn.symm⟩
    rw [horder.live_enqueue]
    simp
  · obtain ⟨last, hlast, hvalue⟩ := hlatest.value
    have hlt : n < ex.enqueued.length := by
      obtain ⟨hlt, -⟩ := List.getElem?_eq_some_iff.1 hlast
      simp only [ProxyExecutor.enqueue, List.length_append, List.length_singleton] at hlt
      omega
    have huntouched := untouched_later hlatest hnew hlt
    have hkeep : ∀ (m : Nat) (old : ProxyOperation V), ex.enqueued[m]? = some old →
        (ex.enqueue operation now).enqueued[m]? = some old := by
      intro m old hm
      obtain ⟨hlt, -⟩ := List.getElem?_eq_some_iff.1 hm
      rw [ProxyExecutor.enqueue, List.getElem?_append_left hlt]
      exact hm
    have hlatest' : Latest ex.enqueued g t k n v := by
      refine ⟨⟨last, ?_, hvalue⟩, fun m old hm => hlatest.last m old (hkeep m old hm),
        fun m old hm => hlatest.resets m old (hkeep m old hm)⟩
      rw [ProxyExecutor.enqueue, List.getElem?_append_left hlt] at hlast
      exact hlast
    rcases h v hlatest' with ⟨e, he, hid⟩ | ⟨hanswered, hlive⟩
    · refine .inl ⟨e, ?_, hid⟩
      rw [horder.live_enqueue]
      exact List.mem_append_left _ he
    · refine .inr ⟨hanswered, ?_⟩
      rw [horder.live_enqueue]
      intro e he
      rcases List.mem_append.1 he with he | he
      · exact hlive e he
      · rw [List.mem_singleton.1 he]
        exact huntouched

theorem LatestKept.startRound {n : Nat} (h : LatestKept ex g t k n) {now : ℚ}
    (hstep : ex.startRound now = some ex') : LatestKept ex' g t k n := by
  have hlive := live_startRound hstep
  obtain ⟨-, -, -, henqueued, -, htrace⟩ := startRound_spec hstep
  have hanswered : lastAnswered ex'.trace g t k = lastAnswered ex.trace g t k := by
    have hmap : ex.queue.entries.map (fun entry => ProxyEvent.taken entry.item) =
        (ex.queue.entries.map QueueEntry.item).map ProxyEvent.taken := by
      rw [List.map_map]
      rfl
    rw [htrace, hmap, lastAnswered_taken]
  intro v hlatest
  rw [henqueued] at hlatest
  rw [hlive, hanswered]
  exact h v hlatest

/-- What a round answers about a namespace and a type are parts of what is merged. -/
theorem partOf_of_mem_answersFor {round : ProxyRound V} {responses : List Response}
    {new : List (Request V)}
    (habout : ∀ request ∈ new,
      Wire.AboutPart g t (Sending.merged (ex.pending round g t)) request)
    (hrequests : requestsFor g t (ex.sendReady round responses).wire.requests = new)
    {part : Dict String V} (h : part ∈ answersFor g t (ex.sendReady round responses).wire.answered) :
    PartOf part (Sending.merged (ex.pending round g t)) := by
  rw [Wire.answered, ← answersFor_requestsFor, hrequests, mem_answersFor, List.mem_filterMap] at h
  obtain ⟨request, hrequest, hanswer⟩ := h
  obtain ⟨-, part', hpart, hkind⟩ := habout request hrequest
  rw [(Request.kind_of_answer hanswer).2] at hkind
  cases hkind
  exact hpart

/-- A round that sends none of an entity does not change its last value. -/
theorem lastAnswered_of_absent {round : ProxyRound V} {responses : List Response}
    (h : ∀ e ∈ ex.pending round g t, e.data.get? k = none) (trace : List (ProxyEvent V)) :
    lastAnswered (trace ++ (ex.sendReady round responses).wire.requests.map .requested) g t k =
      lastAnswered trace g t k := by
  obtain ⟨new, habout, hrequests, -⟩ :=
    Sending.sendBatch_requests (g := g) (t := t) (ex.ready round) (ex.wire responses)
  have hmerged : (Sending.merged (ex.pending round g t)).get? k = none := by
    rw [get?_merged, List.filterMap_eq_nil_iff.2 h]
    rfl
  have habsent : (answersFor g t (ex.sendReady round responses).wire.answered).filterMap
      (fun data => data.get? k) = [] := by
    rw [List.filterMap_eq_nil_iff]
    intro part hpart
    by_contra hsome
    obtain ⟨w, hw⟩ := Option.ne_none_iff_exists'.1 hsome
    have hpartOf := partOf_of_mem_answersFor habout hrequests hpart k w hw
    rw [hmerged] at hpartOf
    cases hpartOf
  rw [lastAnswered_requested, habsent]
  rfl

/-- A round that has an answer about an entity leaves the value of its last entry. -/
theorem lastAnswered_of_answered {round : ProxyRound V} {responses : List Response} {v : V}
    (hvalue : (Sending.merged (ex.pending round g t)).get? k = some v)
    {new : List (Request V)}
    (habout : ∀ request ∈ new,
      Wire.AboutPart g t (Sending.merged (ex.pending round g t)) request)
    (hrequests : requestsFor g t (ex.sendReady round responses).wire.requests = new)
    {data : Dict String V}
    (hdata : data ∈ answersFor g t (ex.sendReady round responses).wire.answered)
    (hkey : k ∈ data.keys) (trace : List (ProxyEvent V)) :
    lastAnswered (trace ++ (ex.sendReady round responses).wire.requests.map .requested) g t k =
      some v := by
  have hconst : ∀ part ∈ answersFor g t (ex.sendReady round responses).wire.answered,
      ∀ w, part.get? k = some w → w = v := by
    intro part hpart w hw
    have hpartOf := partOf_of_mem_answersFor habout hrequests hpart k w hw
    rw [hvalue] at hpartOf
    exact (Option.some.inj hpartOf).symm
  obtain ⟨w, hw⟩ := Dict.mem_keys_iff.1 hkey
  rw [lastAnswered_requested,
    getLast?_filterMap_of_const hconst hdata (hconst data hdata w hw ▸ hw)]
  rfl

/-- The latest value goes out, or goes back. -/
theorem LatestKept.sent (horder : InOrder ex) {responses : List Response} {now : ℚ}
    {round : ProxyRound V} (hround : ex.round = some round)
    (hstep : ex.finishRound responses now = some ex')
    {n : Nat} (hkeeps : ex.KeepsLatest round responses g t k n) {v : V}
    (hlatest : Latest ex.enqueued g t k n v) {e : ProxyEntry V} (he : e ∈ round.entries)
    (hid : e.id = n) :
    (∃ f ∈ ex'.live, f.id = n) ∨
      lastAnswered ex'.trace g t k = some v ∧
        ∀ f ∈ ex'.live, f.item.operation.resets g = false ∧
          f.item.operation.valueFor g t k = none := by
  have hback : e ∈ ex.goBack round responses → ∃ f ∈ ex'.live, f.id = n := by
    intro hgo
    obtain ⟨f, hf, hef⟩ := horder.live_of_goBack hstep hround hgo
    exact ⟨f, hf, by rw [ProxyEntry.id, hef.item]; exact hid⟩
  have hlive : ∀ f ∈ round.entries, f ∈ ex.live := fun f hf => by
    rw [live_of_round hround]
    exact List.mem_append_left _ hf
  have hvalue : e.item.operation.valueFor g t k = some v := by
    obtain ⟨operation, hoperation, hvalue⟩ := hlatest.value
    have hknown := horder.known e (hlive e he)
    rw [hid, hoperation, Option.some.injEq] at hknown
    rw [← hknown, hvalue]
  have hdata := dataFor_of_valueFor (Option.isSome_iff_exists.2 ⟨v, hvalue⟩)
  have hgroup := group_of_dataFor hdata
  by_cases hdue : ex.isDue g round.started = true
  case neg =>
    refine .inl (hback (mem_goBack.2 ⟨he, .inr ?_⟩))
    rw [hgroup]
    simpa using hdue
  have hready : e ∈ ex.ready round := mem_ready.2 ⟨he, by rw [hgroup]; exact hdue⟩
  have hsorted := horder.ready_sorted hround
  -- The entry follows every reset of the batch, and no later one has the entity.
  have hpending : e ∈ ex.pending round g t := by
    refine Batch.mem_pendingFor hsorted hready hdata fun r hr hreset => ?_
    rw [hid]
    exact hlatest.resets _ _ (horder.known r (hlive r (mem_ready.1 hr).1)) hreset
  have hmerged : (Sending.merged (ex.pending round g t)).get? k = some v := by
    rw [get?_merged]
    refine getLast?_filterMap_of_last (hsorted.sublist (Batch.pendingFor_sublist _)) hpending
      (by rw [← valueFor_eq hdata, hvalue]) fun f hf hsome => ?_
    have hfready := (Batch.pendingFor_sublist _).subset hf
    rw [← valueFor_eq (Batch.dataFor_of_mem_pendingFor hf)] at hsome
    rw [hid]
    exact hlatest.last _ _ (horder.known f (hlive f (mem_ready.1 hfready).1)) hsome
  have hdrops : ex.drops round responses g = false := by
    by_contra hdrops
    exact hkeeps.taken (by simpa using hdrops) e hpending hid
  obtain ⟨new, habout, hrequests, hdone⟩ :=
    Sending.sendBatch_requests (g := g) (t := t) (ex.ready round) (ex.wire responses)
  have hcarried : k ∈ e.data.keys :=
    Dict.mem_keys_iff.2 ⟨v, by rw [← valueFor_eq hdata, hvalue]⟩
  by_cases hunsent : e.id ∈ (ex.sendReady round responses).unsent
  case pos => exact .inl (hback (mem_goBack.2 ⟨he, .inl hunsent⟩))
  rcases hdone hdrops k (Dict.mem_keys_iff.2 ⟨v, hmerged⟩) with hall | ⟨hstalled, hsettled⟩
  · exact absurd (hall e hpending hcarried) hunsent
  · refine .inr ⟨?_, fun f hf => ?_⟩
    · obtain ⟨round', hround', -, -, -, -, htrace⟩ := finishRound_spec hstep
      obtain rfl : round' = round := Option.some.inj (hround'.symm.trans hround)
      have hsent : EntitySettled (ex.sendReady round' responses).wire.requests g t k :=
        .of_requestsFor (hrequests ▸ hsettled)
      rw [htrace]
      rcases hsent.answered with hleft | ⟨data, hanswer, hkey⟩
      · exact absurd hid (hkeeps.tried hleft e hpending)
      · exact lastAnswered_of_answered hmerged habout hrequests hanswer hkey _
    -- What is live now either went back, or was enqueued after the entry.
    rcases horder.mem_live_finishRound hstep hround hf with ⟨w, hw, hwf⟩ | hqueue
    · obtain ⟨hwround, hwback⟩ := mem_goBack.1 hw
      have hknown := horder.known w (hlive w hwround)
      have hgoes : w.group = g → w ∈ ex.ready round ∧
          w.id ∈ (ex.sendReady round responses).unsent := by
        intro hwgroup
        rw [hwgroup, hdue] at hwback
        exact ⟨mem_ready.2 ⟨hwround, by rw [hwgroup]; exact hdue⟩,
          hwback.resolve_right (by simp)⟩
      rw [hwf.item]
      constructor
      · by_contra hreset
        rw [Bool.not_eq_false] at hreset
        obtain ⟨hwready, hwunsent⟩ := hgoes (group_of_resets hreset)
        exact hstalled (Sending.stalled_of_unsent hsorted hwready hreset hwunsent)
      · by_contra hsome
        rw [← ne_eq, ← Option.isSome_iff_ne_none] at hsome
        have hwdata := dataFor_of_valueFor hsome
        obtain ⟨hwready, hwunsent⟩ := hgoes (group_of_dataFor hwdata)
        obtain ⟨data, hdata'⟩ := Option.isSome_iff_exists.1 hwdata
        have hwpending := Sending.pending_of_unsent hsorted hwready hdata' hwunsent
        have hle := hlatest.last _ _ hknown hsome
        have hne : w.id ≠ e.id := fun heq => hunsent (heq ▸ hwunsent)
        refine hunsent (hkeeps.notOvertaken e hpending hid w hwpending (by omega) ?_ hwunsent)
        rw [← valueFor_eq hwdata]
        exact hsome
    · have hsorted' := horder.sorted
      rw [live_of_round hround, List.pairwise_append] at hsorted'
      have hlater : n < f.id := hid ▸ (hsorted'.2.2 e he f hqueue).1
      exact untouched_later hlatest (horder.known f (List.mem_append_right _ hqueue)) hlater

theorem LatestKept.finishRound {n : Nat} (h : LatestKept ex g t k n) (horder : InOrder ex)
    {responses : List Response} {now : ℚ} (hstep : ex.finishRound responses now = some ex')
    (hkeeps : ∀ round ∈ ex.round, ex.KeepsLatest round responses g t k n) :
    LatestKept ex' g t k n := by
  obtain ⟨round, hround, -, henqueued, -, -, htrace⟩ := finishRound_spec hstep
  intro v hlatest
  rw [henqueued] at hlatest
  rcases h v hlatest with ⟨e, he, hid⟩ | ⟨hanswered, hlive⟩
  · rw [live_of_round hround, List.mem_append] at he
    rcases he with he | he
    · exact LatestKept.sent horder hround hstep (hkeeps round hround) hlatest he hid
    · exact .inl ⟨e, horder.live_of_queue hstep he, hid⟩
  · have hround_live : ∀ e ∈ round.entries, e ∈ ex.live := fun e he => by
      rw [live_of_round hround]
      exact List.mem_append_left _ he
    refine .inr ⟨?_, fun f hf => ?_⟩
    · rw [htrace, lastAnswered_of_absent, hanswered]
      intro e he
      have hready := (Batch.pendingFor_sublist _).subset he
      rw [← valueFor_eq (Batch.dataFor_of_mem_pendingFor he)]
      exact (hlive e (hround_live e (mem_ready.1 hready).1)).2
    · rcases horder.mem_live_finishRound hstep hround hf with ⟨w, hw, hwf⟩ | hqueue
      · rw [hwf.item]
        exact hlive w (hround_live w (mem_goBack.1 hw).1)
      · exact hlive f (List.mem_append_right _ hqueue)

end ProxyExecutor

open ProxyExecutor in
/-- In every run whose rounds keep the value of the last operation with an entity, once
nothing is left to do the ranking has taken or refused that value last. -/
theorem latest_value_answered {V : Type} {g : Namespace} {t : EntityType} {k : String} {n : Nat}
    {ex : ProxyExecutor V} (h : (proxyMachine V).ReachableVia (RoundsKeepLatest g t k n) ex)
    (hqueue : ex.queue.entries = []) (hround : ex.round = none) {v : V}
    (hlatest : Latest ex.enqueued g t k n v) : lastAnswered ex.trace g t k = some v := by
  have hinv : InOrder ex ∧ LatestKept ex g t k n := by
    refine h.invariant (I := fun ex => InOrder ex ∧ LatestKept ex g t k n) ?_ ?_
    · rintro _ rfl
      refine ⟨.start, fun v hlatest => ?_⟩
      obtain ⟨operation, hoperation, -⟩ := hlatest.value
      cases hoperation
    · rintro ex action ex' ⟨horder, hkept⟩ hok hstep
      refine ⟨inOrder_step horder hstep, ?_⟩
      cases action with
      | enqueue operation now =>
          cases hstep
          exact hkept.enqueue horder operation now
      | startRound now => exact hkept.startRound hstep
      | finishRound responses now => exact hkept.finishRound horder hstep hok
  rcases hinv.2 v hlatest with ⟨e, he, -⟩ | ⟨hanswered, -⟩
  · rw [live, inRound, hround, hqueue] at he
    cases he
  · exact hanswered

/-! ### Runs -/

instance (ex : ProxyExecutor V) (round : ProxyRound V) (responses : List Response) (g : Namespace)
    (t : EntityType) (k : String) (n : Nat) [DecidableEq V] :
    Decidable (ex.KeepsLatest round responses g t k n) :=
  decidable_of_iff
    ((ex.drops round responses g → ∀ f ∈ ex.pending round g t, f.id ≠ n) ∧
      (leftUntried (ex.sendReady round responses).wire.requests g t k →
        ∀ f ∈ ex.pending round g t, f.id ≠ n) ∧
      ∀ f ∈ ex.pending round g t, f.id = n →
        ∀ e ∈ ex.pending round g t, e.id < f.id → (e.data.get? k).isSome →
          e.id ∈ (ex.sendReady round responses).unsent →
          f.id ∈ (ex.sendReady round responses).unsent)
    ⟨fun h => ⟨h.1, h.2.1, h.2.2⟩, fun h => ⟨h.taken, h.tried, h.notOvertaken⟩⟩

instance (ex : ProxyExecutor V) (action : ProxyAction V) (n : Nat) [DecidableEq V] :
    Decidable (ProxyExecutor.RoundsKeepLatest g t k n ex action) :=
  match action with
  | .finishRound responses _ =>
      inferInstanceAs (Decidable (∀ round ∈ ex.round, ex.KeepsLatest round responses g t k n))
  | .enqueue _ _ => inferInstanceAs (Decidable True)
  | .startRound _ => inferInstanceAs (Decidable True)

/-- The last operation carries the entity, so it is no reset. -/
theorem latest_concat {operations : List (ProxyOperation V)} {operation : ProxyOperation V} {v : V}
    (hvalue : operation.valueFor g t k = some v) :
    Latest (operations ++ [operation]) g t k operations.length v where
  value := ⟨operation, by simp, hvalue⟩
  last m o ho _ := by
    obtain ⟨hlt, -⟩ := List.getElem?_eq_some_iff.1 ho
    rw [List.length_append, List.length_singleton] at hlt
    omega
  resets m o ho hreset := by
    obtain ⟨hlt, -⟩ := List.getElem?_eq_some_iff.1 ho
    rw [List.length_append, List.length_singleton] at hlt
    rcases Nat.lt_or_eq_of_le (Nat.le_of_lt_succ hlt) with hlt | rfl
    · exact hlt
    · rw [List.getElem?_concat_length, Option.some.injEq] at ho
      rw [← ho, ProxyOperation.resets_iff] at hreset
      rw [hreset] at hvalue
      cases hvalue

/-- Two contests, and then the first of them again. -/
def twoContests : ProxyOperation Nat :=
  ⟨.entities .contest ⟨[("a", 1), ("b", 1)], by decide⟩, none⟩

def firstContest : ProxyOperation Nat :=
  ⟨.entities .contest (.singleton "a" 2), none⟩

/-- The settings of the namespace are refused, and its data is dropped. -/
def refusedRun : List (ProxyAction Nat) :=
  [.enqueue ⟨.visibility .empty, none⟩ 0, .enqueue firstContest 0, .startRound 0,
    .finishRound [.refused (some 404)] 0]

/-- Everything is sent again, and the list is split. -/
def recoveredRun : List (ProxyAction Nat) :=
  refusedRun ++ [.enqueue ⟨.reset, none⟩ 0, .enqueue ⟨.visibility .empty, none⟩ 0,
    .enqueue twoContests 0, .enqueue firstContest 0, .startRound 1,
    .finishRound [.delivered, .delivered, .delivered, .refused (some 400), .delivered,
      .refused (some 400)] 1]

def recoveredEnd : ProxyExecutor Nat :=
  ((proxyMachine Nat).execVia (ProxyExecutor.RoundsKeepLatest none .contest "a" 5) .start
    recoveredRun).get (by decide +kernel)

theorem latest_value_answered_recovered :
    lastAnswered recoveredEnd.trace none .contest "a" = some 2 := by
  have hrun : (proxyMachine Nat).execVia (ProxyExecutor.RoundsKeepLatest none .contest "a" 5)
      .start recoveredRun = some recoveredEnd := (Option.some_get _).symm
  have henqueued : recoveredEnd.enqueued = [⟨.visibility .empty, none⟩, firstContest,
      ⟨.reset, none⟩, ⟨.visibility .empty, none⟩, twoContests] ++ [firstContest] := by
    decide +kernel
  refine latest_value_answered ⟨.start, rfl, Machine.path_of_execVia hrun⟩
    (by decide +kernel) (by decide +kernel) ?_
  rw [henqueued]
  exact latest_concat rfl

def refusedEnd : ProxyExecutor Nat :=
  ((proxyMachine Nat).exec .start refusedRun).get (by decide +kernel)

/-- The first contest of a split is refused for another reason than invalid data, and the
second one is not tried. -/
def untriedRun : List (ProxyAction Nat) :=
  [.enqueue twoContests 0, .startRound 0,
    .finishRound [.refused (some 400), .refused (some 403)] 0]

def untriedEnd : ProxyExecutor Nat :=
  ((proxyMachine Nat).exec .start untriedRun).get (by decide +kernel)

/-- The ranking stops answering after the first contest of a split: the operation that
has both goes back, the later one counts as sent. -/
def overtakenRun : List (ProxyAction Nat) :=
  [.enqueue twoContests 0, .enqueue firstContest 0, .startRound 0,
    .finishRound [.refused (some 400), .delivered, .undelivered] 0,
    .startRound 1, .finishRound [.delivered] 1]

def overtakenEnd : ProxyExecutor Nat :=
  ((proxyMachine Nat).exec .start overtakenRun).get (by decide +kernel)

/-- In the three runs the queue drains, and the ranking did not answer last about the
latest value: about none in the first two, about an older one in the third. -/
theorem latest_value_lost :
    ((proxyMachine Nat).Reachable refusedEnd ∧ refusedEnd.queue.entries = [] ∧
      refusedEnd.round = none ∧ Latest refusedEnd.enqueued none .contest "a" 1 2 ∧
      lastAnswered refusedEnd.trace none .contest "a" = none) ∧
    ((proxyMachine Nat).Reachable untriedEnd ∧ untriedEnd.queue.entries = [] ∧
      untriedEnd.round = none ∧ Latest untriedEnd.enqueued none .contest "b" 0 1 ∧
      lastAnswered untriedEnd.trace none .contest "b" = none) ∧
    ((proxyMachine Nat).Reachable overtakenEnd ∧ overtakenEnd.queue.entries = [] ∧
      overtakenEnd.round = none ∧ Latest overtakenEnd.enqueued none .contest "a" 1 2 ∧
      lastAnswered overtakenEnd.trace none .contest "a" = some 1) := by
  have hrefused : (proxyMachine Nat).exec .start refusedRun = some refusedEnd :=
    (Option.some_get _).symm
  have huntried : (proxyMachine Nat).exec .start untriedRun = some untriedEnd :=
    (Option.some_get _).symm
  have hovertaken : (proxyMachine Nat).exec .start overtakenRun = some overtakenEnd :=
    (Option.some_get _).symm
  have henqueued : refusedEnd.enqueued = [⟨.visibility .empty, none⟩] ++ [firstContest] := by
    decide +kernel
  have henqueued' : untriedEnd.enqueued = [] ++ [twoContests] := by decide +kernel
  have henqueued'' : overtakenEnd.enqueued = [twoContests] ++ [firstContest] := by
    decide +kernel
  refine ⟨⟨Machine.reachable_of_exec rfl hrefused, by decide +kernel, by decide +kernel, ?_,
    by decide +kernel⟩, ⟨Machine.reachable_of_exec rfl huntried, by decide +kernel,
    by decide +kernel, ?_, by decide +kernel⟩, ⟨Machine.reachable_of_exec rfl hovertaken,
    by decide +kernel, by decide +kernel, ?_, by decide +kernel⟩⟩
  · rw [henqueued]
    exact latest_concat rfl
  · rw [henqueued']
    exact latest_concat rfl
  · rw [henqueued'']
    exact latest_concat rfl

end Service
end ContestManagement
