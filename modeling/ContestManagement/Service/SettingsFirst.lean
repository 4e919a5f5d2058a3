import ContestManagement.Service.RoundAccounts

/-!
# Visibility settings precede data

Data of a namespace goes out only when the settings last taken from the queue for the
namespace have been delivered.  Between rounds, settings that were taken are delivered,
or they stand refused, or settings wait in the queue and the next round that tries the
namespace takes them along with its data.
-/

namespace ContestManagement
namespace Service

open Lib Io

variable {V : Type} {g : Namespace}

/-- The operation sends the settings of the namespace. -/
def ProxyOperation.IsSettings (g : Namespace) (operation : ProxyOperation V) : Prop :=
  ∃ settings, operation = ⟨.visibility settings, g⟩

/-- The identity of settings of the namespace that are taken from the queue. -/
def takenSettings (g : Namespace) : ProxyEvent V → Option Nat
  | .taken ⟨id, ⟨.visibility _, group⟩⟩ => if group = g then some id else none
  | _ => none

/-- The settings last taken from the queue for a namespace. -/
def lastTaken (g : Namespace) (trace : List (ProxyEvent V)) : Option Nat :=
  (trace.filterMap (takenSettings g)).getLast?

/-- Settings that the ranking has taken. -/
def SettingsDelivered (g : Namespace) (trace : List (ProxyEvent V)) (id : Nat) : Prop :=
  ∃ settings, .requested ⟨g, .visibility id settings, .delivered⟩ ∈ trace

/-- Data of the namespace may be sent after these events: the settings last taken were
delivered, and so were the ones last sent. -/
structure DataAllowed (g : Namespace) (before : List (ProxyEvent V)) : Prop where
  taken : ∀ id ∈ lastTaken g before, SettingsDelivered g before id
  sent : ∀ response ∈ (settingsResponses g before).getLast?, response = .delivered

/-- Every request about data of the namespace is allowed by what came before it. -/
def DataAfterSettings (g : Namespace) (trace : List (ProxyEvent V)) : Prop :=
  ∀ before request after, trace = before ++ .requested request :: after →
    Sending.AboutData g request → DataAllowed g before

/-! ### Traces -/

theorem takenSettings_eq_some_iff {item : ProxyItem V} {id : Nat} :
    takenSettings g (.taken item) = some id ↔ item.operation.IsSettings g ∧ item.id = id := by
  obtain ⟨id', ⟨payload, group⟩⟩ := item
  cases payload with
  | reset => simp [takenSettings, ProxyOperation.IsSettings]
  | visibility settings =>
      by_cases hgroup : group = g <;> simp [takenSettings, ProxyOperation.IsSettings, hgroup]
  | entities type_ data => simp [takenSettings, ProxyOperation.IsSettings]

theorem lastTaken_requested (trace : List (ProxyEvent V)) (requests : List (Request V)) :
    lastTaken g (trace ++ requests.map .requested) = lastTaken g trace := by
  have hnone : (requests.map ProxyEvent.requested).filterMap (takenSettings g) = [] := by
    rw [List.filterMap_map, List.filterMap_eq_nil_iff]
    intro request _
    rfl
  rw [lastTaken, List.filterMap_append, hnone, List.append_nil]
  rfl

theorem SettingsDelivered.mono {trace more : List (ProxyEvent V)} {id : Nat}
    (h : SettingsDelivered g trace id) : SettingsDelivered g (trace ++ more) id := by
  obtain ⟨settings, hmem⟩ := h
  exact ⟨settings, List.mem_append_left _ hmem⟩

/-- Appending requests, each allowed by what comes before it. -/
theorem DataAfterSettings.append {trace : List (ProxyEvent V)} (h : DataAfterSettings g trace)
    {requests : List (Request V)}
    (hmore : ∀ before request after, requests = before ++ request :: after →
      Sending.AboutData g request → DataAllowed g (trace ++ before.map .requested)) :
    DataAfterSettings g (trace ++ requests.map .requested) := by
  intro before request after hsplit habout
  rcases List.append_eq_append_iff.1 hsplit with ⟨middle, rfl, hrest⟩ | ⟨middle, htrace, hrest⟩
  · obtain ⟨first, second, rfl, hfirst, hsecond⟩ := List.map_eq_append_iff.1 hrest
    obtain ⟨request', rest, rfl, hrequest, hrest'⟩ := List.map_eq_cons_iff.1 hsecond
    cases hrequest
    rw [← hfirst]
    exact hmore first request rest rfl habout
  · cases middle with
    | nil =>
        rw [List.append_nil] at htrace
        rw [List.nil_append] at hrest
        obtain ⟨request', rest, rfl, hrequest, -⟩ := List.map_eq_cons_iff.1 hrest.symm
        cases hrequest
        have hallowed := hmore [] request rest rfl habout
        rw [List.map_nil, List.append_nil, htrace] at hallowed
        exact hallowed
    | cons event middle =>
        rw [List.cons_append, List.cons.injEq] at hrest
        obtain ⟨rfl, -⟩ := hrest
        exact h before request middle htrace habout

theorem DataAfterSettings.append_taken {trace : List (ProxyEvent V)} (h : DataAfterSettings g trace)
    (entries : List (ProxyEntry V)) :
    DataAfterSettings g (trace ++ entries.map fun entry => .taken entry.item) := by
  intro before request after hsplit habout
  have hin : ProxyEvent.requested request ∉ entries.map fun entry => .taken entry.item := by
    intro hmem
    obtain ⟨entry, -, hentry⟩ := List.mem_map.1 hmem
    cases hentry
  rcases List.append_eq_append_iff.1 hsplit with ⟨middle, rfl, hrest⟩ | ⟨middle, htrace, hrest⟩
  · rw [hrest] at hin
    simp at hin
  · cases middle with
    | nil =>
        rw [List.nil_append] at hrest
        rw [← hrest] at hin
        simp at hin
    | cons event middle =>
        rw [List.cons_append, List.cons.injEq] at hrest
        obtain ⟨rfl, -⟩ := hrest
        exact h before request middle htrace habout

/-! ### One round -/

namespace Sending

variable {entries : List (ProxyEntry V)} {wire : Wire V} {resets settings data : List (Request V)}

/-- What was sent to the namespace before one of its data requests. -/
theorem NamespaceRequests.before_data (h : NamespaceRequests g entries wire resets settings data)
    {before after : List (Request V)} {request : Request V}
    (hsplit : (sendBatch entries wire).wire.requests = before ++ request :: after)
    (habout : AboutData g request) :
    data ≠ [] ∧ settings ⊆ before ∧
      before.filterMap (settingsResponse g) = settings.filterMap (settingsResponse g) := by
  obtain ⟨hgroup, type_, payload, hkind⟩ := habout
  let beforeTo := before.filter fun request => decide (request.group = g)
  have hto : resets ++ (settings ++ data) = beforeTo ++ request ::
      after.filter fun request => decide (request.group = g) := by
    rw [← h.all, Wire.requestsTo, hsplit, List.filter_append, List.filter_cons_of_pos (by simpa)]
  have hnotin : request ∉ resets ++ settings := by
    intro hmem
    rcases List.mem_append.1 hmem with hmem | hmem
    · obtain ⟨path, hreset⟩ := h.resets_kind request hmem
      rw [hkind] at hreset
      cases hreset
    · rcases h.settings_sent with ⟨hnil, -⟩ | ⟨e, response, -, hsettings, -⟩
      · rw [hnil] at hmem
        cases hmem
      · rw [hsettings, List.mem_singleton] at hmem
        rw [hmem] at hkind
        cases hkind
  -- The request is one of the data, so the resets and the settings come before it.
  obtain ⟨sent, hbefore, hdata⟩ : ∃ sent, beforeTo = resets ++ settings ++ sent ∧
      data = sent ++ request :: after.filter fun request => decide (request.group = g) := by
    rw [← List.append_assoc] at hto
    rcases List.append_eq_append_iff.1 hto with ⟨sent, hbefore, hdata⟩ | ⟨rest, hfirst, hrest⟩
    · exact ⟨sent, hbefore, hdata⟩
    · cases rest with
      | nil =>
          rw [List.append_nil] at hfirst
          rw [List.nil_append] at hrest
          exact ⟨[], by rw [List.append_nil, hfirst], by rw [← hrest]; rfl⟩
      | cons first rest =>
          rw [List.cons_append, List.cons.injEq] at hrest
          obtain ⟨rfl, -⟩ := hrest
          exact absurd (hfirst ▸ by simp) hnotin
  refine ⟨by rw [hdata]; simp, fun r hr => ?_, ?_⟩
  · have hmem : r ∈ beforeTo := by
      rw [hbefore]
      exact List.mem_append_left _ (List.mem_append_right _ hr)
    exact (List.mem_filter.1 hmem).1
  · have hsent : sent.filterMap (settingsResponse g) = [] := by
      refine settingsResponse_nil g fun r hr id settings hvisibility => ?_
      obtain ⟨type_, data', hdata'⟩ := h.data_kind r (by rw [hdata]; simp [hr])
      rw [hdata'] at hvisibility
      cases hvisibility
    have hfilter : before.filterMap (settingsResponse g) =
        beforeTo.filterMap (settingsResponse g) :=
      filterMap_settingsResponse g { wire with requests := before }
    rw [hfilter, hbefore, List.filterMap_append, List.filterMap_append, hsent,
      h.resets_settingsResponse, List.nil_append, List.append_nil]

end Sending

/-! ### The invariant -/

namespace ProxyExecutor

variable {ex ex' : ProxyExecutor V}

/-- The entries that were taken from the queue and are not dealt with: those of the round
in progress, or else those that went back. -/
def pool (ex : ProxyExecutor V) : List (ProxyEntry V) :=
  ex.round.elim ex.queue.entries ProxyRound.entries

/-- Settings of the namespace wait to be sent. -/
def HasSettings (ex : ProxyExecutor V) (g : Namespace) : Prop :=
  ∃ e ∈ ex.pool, e.item.operation.IsSettings g

/-- What the executor knows of the settings of a namespace. -/
structure SettingsKnown (ex : ProxyExecutor V) (g : Namespace) : Prop where
  first : DataAfterSettings g ex.trace
  taken : ∀ id ∈ lastTaken g ex.trace,
    SettingsDelivered g ex.trace id ∨ g ∈ ex.rejectedVisibility ∨ ex.HasSettings g
  refused : ∀ status, (settingsResponses g ex.trace).getLast? = some (.refused status) →
    g ∈ ex.rejectedVisibility
  undelivered : (settingsResponses g ex.trace).getLast? = some .undelivered → ex.HasSettings g
  /-- The settings of the round in progress are the ones last taken. -/
  current : ∀ round ∈ ex.round, ∀ e ∈ round.entries, e.item.operation.IsSettings g →
    ∃ f ∈ round.entries, f.item.operation.IsSettings g ∧ lastTaken g ex.trace = some f.id ∧
      e.id ≤ f.id

theorem SettingsKnown.start : SettingsKnown (start : ProxyExecutor V) g where
  first before request after h := by simp [ProxyExecutor.start] at h
  taken id h := by simp [ProxyExecutor.start, lastTaken] at h
  refused status h := by simp [ProxyExecutor.start, settingsResponses] at h
  undelivered h := by simp [ProxyExecutor.start, settingsResponses] at h
  current round h := by simp [ProxyExecutor.start] at h

theorem SettingsKnown.enqueue (h : SettingsKnown ex g) (horder : InOrder ex)
    (operation : ProxyOperation V) (now : ℤ) : SettingsKnown (ex.enqueue operation now) g := by
  have hpool : ex.HasSettings g → (ex.enqueue operation now).HasSettings g := by
    rintro ⟨e, he, hsettings⟩
    refine ⟨e, ?_, hsettings⟩
    unfold pool at he ⊢
    cases hround : ex.round with
    | none =>
        have hround' : (ex.enqueue operation now).round = none := hround
        rw [hround] at he
        rw [hround', horder.enqueue_queue]
        exact List.mem_append_left _ he
    | some round =>
        have hround' : (ex.enqueue operation now).round = some round := hround
        rw [hround] at he
        rw [hround']
        exact he
  exact ⟨h.first, fun id hid => (h.taken id hid).imp_right (Or.imp_right hpool), h.refused,
    fun hlast => hpool (h.undelivered hlast), h.current⟩

/-- What a round takes is taken last. -/
theorem lastTaken_entries (trace : List (ProxyEvent V)) (entries : List (ProxyEntry V)) :
    lastTaken g (trace ++ entries.map fun entry => .taken entry.item) =
      ((entries.filterMap fun e => takenSettings g (.taken e.item)).getLast?).or
        (lastTaken g trace) := by
  rw [lastTaken, List.filterMap_append, List.filterMap_map, List.getLast?_append]
  rfl

theorem mem_takenSettings {entries : List (ProxyEntry V)} {id : Nat} :
    id ∈ entries.filterMap (fun e => takenSettings g (.taken e.item)) ↔
      ∃ e ∈ entries, e.item.operation.IsSettings g ∧ e.id = id := by
  simp only [List.mem_filterMap, takenSettings_eq_some_iff]
  rfl

/-- In a sorted batch the last settings have the greatest identity. -/
theorem le_getLast_takenSettings {entries : List (ProxyEntry V)}
    (hsorted : entries.Pairwise fun e f => e.id < f.id) {last : Nat}
    (hlast : (entries.filterMap fun e => takenSettings g (.taken e.item)).getLast? = some last)
    {e : ProxyEntry V} (he : e ∈ entries) (hsettings : e.item.operation.IsSettings g) :
    e.id ≤ last := by
  induction entries using List.reverseRecOn with
  | nil => cases he
  | append_singleton entries f ih =>
      rw [List.pairwise_append] at hsorted
      obtain ⟨hsorted, -, hbefore⟩ := hsorted
      rw [List.filterMap_append, List.getLast?_append] at hlast
      by_cases hf : f.item.operation.IsSettings g
      · have htaken : takenSettings g (.taken f.item) = some f.id :=
          takenSettings_eq_some_iff.2 ⟨hf, rfl⟩
        obtain rfl : f.id = last := by simpa [htaken] using hlast
        rcases List.mem_append.1 he with he | he
        · exact le_of_lt (hbefore e he f (by simp))
        · rw [List.mem_singleton.1 he]
      · have htaken : takenSettings g (.taken f.item) = none := by
          rw [Option.eq_none_iff_forall_ne_some]
          intro id hid
          exact hf (takenSettings_eq_some_iff.1 hid).1
        have hmem : e ∈ entries := by
          rcases List.mem_append.1 he with he | he
          · exact he
          · rw [List.mem_singleton.1 he] at hsettings
            exact absurd hsettings hf
        exact ih hsorted (by simpa [htaken] using hlast) hmem

theorem SettingsKnown.startRound (h : SettingsKnown ex g) (horder : InOrder ex) {now : ℚ}
    (hstep : ex.startRound now = some ex') : SettingsKnown ex' g := by
  obtain ⟨hround, hround', -, -, hrejected, htrace⟩ := startRound_spec hstep
  have hpool : ex'.pool = ex.pool := by simp [pool, hround, hround']
  have hentries : ex.pool = ex.queue.entries := by simp [pool, hround]
  have hsettings : ex.HasSettings g → ex'.HasSettings g := by
    rintro ⟨e, he, hsettings⟩
    exact ⟨e, hpool ▸ he, hsettings⟩
  have hsorted : ex.queue.entries.Pairwise fun (e f : ProxyEntry V) => e.id < f.id := by
    have hlive := horder.sorted
    simp only [live, inRound, hround, Option.elim_none, List.nil_append] at hlive
    exact hlive.imp fun hearlier => hearlier.1
  constructor
  · rw [htrace]
    exact h.first.append_taken _
  · intro id hid
    rw [htrace, lastTaken_entries] at hid
    rw [hrejected]
    rcases Option.or_eq_some_iff.1 hid with hid | ⟨-, hid⟩
    · obtain ⟨e, he, hsettings', -⟩ := mem_takenSettings.1 (List.mem_of_getLast? hid)
      exact .inr (.inr ⟨e, by rw [hpool, hentries]; exact he, hsettings'⟩)
    · rcases h.taken id hid with hdelivered | hrefused | hwaits
      · rw [htrace]
        exact .inl hdelivered.mono
      · exact .inr (.inl hrefused)
      · exact .inr (.inr (hsettings hwaits))
  · intro status hlast
    rw [htrace, settingsResponses_taken] at hlast
    rw [hrejected]
    exact h.refused status hlast
  · intro hlast
    rw [htrace, settingsResponses_taken] at hlast
    exact hsettings (h.undelivered hlast)
  · intro round hmem e he hsettings'
    rw [hround', Option.mem_some_iff] at hmem
    subst hmem
    have hne : (ex.queue.entries.filterMap fun e => takenSettings g (.taken e.item)) ≠ [] :=
      List.ne_nil_of_mem (mem_takenSettings.2 ⟨e, he, hsettings', rfl⟩)
    have hlast := List.getLast?_eq_getLast_of_ne_nil hne
    obtain ⟨f, hf, hfsettings, hid⟩ := mem_takenSettings.1 (List.mem_of_getLast? hlast)
    refine ⟨f, hf, hfsettings, ?_, ?_⟩
    · rw [htrace, lastTaken_entries, hlast, ← hid]
      rfl
    · rw [hid]
      exact le_getLast_takenSettings hsorted hlast he hsettings'

theorem group_of_isSettings {e : ProxyEntry V} (h : e.item.operation.IsSettings g) :
    e.group = g := by
  obtain ⟨settings, hsettings⟩ := h
  rw [ProxyEntry.group, hsettings]

/-- The settings that a round sends are the ones last taken. -/
theorem SettingsKnown.lastTaken_eq (h : SettingsKnown ex g) (horder : InOrder ex)
    {round : ProxyRound V} (hround : ex.round = some round) {e : ProxyEntry V}
    (he : (Batch.ofEntries (ex.ready round)).visibilities.get? g = some e) :
    lastTaken g ex.trace = some e.id := by
  obtain ⟨hready, hsettings⟩ := Batch.visibilities_ofEntries he
  obtain ⟨hmem, hdue⟩ := mem_ready.1 hready
  obtain ⟨f, hf, hfsettings, hlast, hle⟩ := h.current round hround e hmem hsettings
  rw [group_of_isSettings hsettings] at hdue
  have hfready : f ∈ ex.ready round :=
    mem_ready.2 ⟨hf, by rw [group_of_isSettings hfsettings]; exact hdue⟩
  obtain ⟨settings, hoperation⟩ := hfsettings
  obtain ⟨v, hv, hle'⟩ := Batch.exists_visibilities (horder.ready_sorted hround) hfready hoperation
  obtain rfl : e = v := Option.some.inj (he.symm.trans hv)
  rw [hlast, show f.id = e.id by omega]

/-- Settings that go back wait in the queue. -/
theorem InOrder.hasSettings_of_goBack (horder : InOrder ex) {round : ProxyRound V}
    (hround : ex.round = some round) {responses : List Response} {now : ℚ}
    (hstep : ex.finishRound responses now = some ex') {e : ProxyEntry V}
    (he : e ∈ ex.goBack round responses) (hsettings : e.item.operation.IsSettings g) :
    ex'.HasSettings g := by
  obtain ⟨f, hf, hef⟩ := horder.live_of_goBack hstep hround he
  obtain ⟨-, -, hround', -⟩ := finishRound_spec hstep
  simp only [live, inRound, hround', Option.elim_none, List.nil_append] at hf
  refine ⟨f, ?_, hef.item ▸ hsettings⟩
  simp only [pool, hround', Option.elim_none]
  exact hf

/-- Settings that a round has but does not try go back. -/
theorem InOrder.hasSettings_of_untried (horder : InOrder ex) {round : ProxyRound V}
    (hround : ex.round = some round) {responses : List Response} {now : ℚ}
    (hstep : ex.finishRound responses now = some ex')
    (hnone : (Batch.ofEntries (ex.ready round)).visibilities.get? g = none)
    (h : ex.HasSettings g) : ex'.HasSettings g := by
  obtain ⟨e, he, hsettings⟩ := h
  simp only [pool, hround, Option.elim_some] at he
  refine horder.hasSettings_of_goBack hround hstep (mem_goBack.2 ⟨he, .inr ?_⟩) hsettings
  by_contra hdue
  obtain ⟨settings, hoperation⟩ := hsettings
  obtain ⟨v, hv, -⟩ := Batch.exists_visibilities (horder.ready_sorted hround)
    (mem_ready.2 ⟨he, by simpa using hdue⟩) hoperation
  rw [hnone] at hv
  cases hv

/-- Data of the namespace goes out in a round only when it may. -/
theorem SettingsKnown.dataAllowed (h : SettingsKnown ex g) (horder : InOrder ex)
    {round : ProxyRound V} (hround : ex.round = some round) {responses : List Response}
    {before after : List (Request V)} {request : Request V}
    (hsplit : (ex.sendReady round responses).wire.requests = before ++ request :: after)
    (habout : Sending.AboutData g request) :
    DataAllowed g (ex.trace ++ before.map .requested) := by
  obtain ⟨resets, settings, data, hrequests⟩ :=
    Sending.exists_namespaceRequests g (ex.ready round) (ex.wire responses) rfl
  obtain ⟨hdata, hsub, hresponses⟩ := hrequests.before_data hsplit habout
  have hpending : (Batch.ofEntries (ex.ready round)).pending.get? g ≠ none := fun hnone =>
    hdata (hrequests.data_nil (.inl hnone))
  have hstalled : g ∉ (Sending.settings (Batch.ofEntries (ex.ready round))
      (ex.wire responses)).stalled := fun hstalled =>
    hdata (hrequests.data_nil (.inr (.inl hstalled)))
  have hrejected : g ∉ (ex.sendReady round responses).wire.rejectedVisibility := fun hrejected =>
    hdata (hrequests.data_nil (.inr (.inr hrejected)))
  rcases hrequests.settings_sent with
    ⟨hnil, hsame, hwaits⟩ | ⟨e, response, he, hsettings, hsettled⟩
  · have hnone : (Batch.ofEntries (ex.ready round)).visibilities.get? g = none := by
      rw [Option.eq_none_iff_forall_ne_some]
      exact fun e he => hstalled (hwaits e he).1
    -- The namespace is tried, so settings in the round would be sent.
    have hnosettings : ¬ex.HasSettings g := by
      rintro ⟨f, hf, settings', hoperation⟩
      simp only [pool, hround, Option.elim_some] at hf
      obtain ⟨groupEntries, hgroupEntries⟩ := Option.ne_none_iff_exists'.1 hpending
      obtain ⟨d, hd, hgroup⟩ := Batch.exists_mem_of_pending hgroupEntries
      have hdue := (mem_ready.1 hd).2
      rw [hgroup] at hdue
      have hready : f ∈ ex.ready round :=
        mem_ready.2 ⟨hf, by rw [ProxyEntry.group, hoperation]; exact hdue⟩
      obtain ⟨v, hv, -⟩ := Batch.exists_visibilities (horder.ready_sorted hround) hready hoperation
      rw [hnone] at hv
      cases hv
    have haccepted : g ∉ ex.rejectedVisibility := fun hmem => hrejected (hsame.2 hmem)
    constructor
    · intro id hid
      rw [lastTaken_requested] at hid
      rcases h.taken id hid with hdelivered | hrefused | hhas
      · exact hdelivered.mono
      · exact absurd hrefused haccepted
      · exact absurd hhas hnosettings
    · intro response hresponse
      rw [settingsResponses_requested, hresponses, hnil, List.filterMap_nil, List.append_nil]
        at hresponse
      cases response with
      | delivered => rfl
      | refused status => exact absurd (h.refused status hresponse) haccepted
      | undelivered => exact absurd (h.undelivered hresponse) hnosettings
  · have hdelivered : response = .delivered := by
      cases response with
      | delivered => rfl
      | refused status => exact absurd hsettled hrejected
      | undelivered => exact absurd hsettled.1 hstalled
    subst hdelivered
    constructor
    · intro id hid
      rw [lastTaken_requested, h.lastTaken_eq horder hround he, Option.mem_some_iff] at hid
      subst hid
      refine ⟨e.settings, List.mem_append_right _ (List.mem_map.2 ⟨_, hsub ?_, rfl⟩)⟩
      rw [hsettings]
      exact List.mem_singleton_self _
    · intro response hresponse
      rw [settingsResponses_requested, hresponses, hsettings, List.getLast?_append] at hresponse
      simp only [Sending.settingsResponse, List.filterMap_cons, List.filterMap_nil] at hresponse
      exact (Option.some.inj (by simpa using hresponse)).symm

theorem SettingsKnown.finishRound (h : SettingsKnown ex g) (horder : InOrder ex)
    {responses : List Response} {now : ℚ} (hstep : ex.finishRound responses now = some ex') :
    SettingsKnown ex' g := by
  obtain ⟨round, hround, hround', -, -, hrejected, htrace⟩ := finishRound_spec hstep
  obtain ⟨resets, settings, data, hrequests⟩ :=
    Sending.exists_namespaceRequests g (ex.ready round) (ex.wire responses) rfl
  have hresponses : settingsResponses g ex'.trace =
      settingsResponses g ex.trace ++ settings.filterMap (Sending.settingsResponse g) := by
    rw [htrace, settingsResponses_requested, sendReady, hrequests.settingsResponses]
  have hback : ∀ e, (Batch.ofEntries (ex.ready round)).visibilities.get? g = some e →
      e.id ∈ (ex.sendReady round responses).unsent → ex'.HasSettings g := by
    intro e he hunsent
    obtain ⟨hready, hsettings⟩ := Batch.visibilities_ofEntries he
    exact horder.hasSettings_of_goBack hround hstep
      (mem_goBack.2 ⟨(mem_ready.1 hready).1, .inl hunsent⟩) hsettings
  have hfirst : DataAfterSettings g ex'.trace := by
    rw [htrace]
    exact h.first.append fun before request after hsplit habout =>
      h.dataAllowed horder hround hsplit habout
  have hlast : lastTaken g ex'.trace = lastTaken g ex.trace := by
    rw [htrace, lastTaken_requested]
  have hidle : ∀ round ∈ ex'.round, ∀ e ∈ round.entries, e.item.operation.IsSettings g →
      ∃ f ∈ round.entries, f.item.operation.IsSettings g ∧ lastTaken g ex'.trace = some f.id ∧
        e.id ≤ f.id := by
    rw [hround']
    rintro _ ⟨⟩
  rcases hrequests.settings_sent with
    ⟨hnil, hsame, hwaits⟩ | ⟨e, response, he, hsettings, hsettled⟩
  · -- No settings were sent: what waited still waits, in the queue.
    have hhas : ex.HasSettings g → ex'.HasSettings g := by
      intro hex
      cases hvisibility : (Batch.ofEntries (ex.ready round)).visibilities.get? g with
      | none => exact horder.hasSettings_of_untried hround hstep hvisibility hex
      | some e => exact hback e hvisibility (hwaits e hvisibility).2
    rw [hnil, List.filterMap_nil, List.append_nil] at hresponses
    refine ⟨hfirst, fun id hid => ?_, fun status hstatus => ?_, fun hundelivered => ?_, hidle⟩
    · rw [hlast] at hid
      rw [hrejected, htrace]
      rcases h.taken id hid with hdelivered | hrefused | hex
      · exact .inl hdelivered.mono
      · exact .inr (.inl (hsame.2 hrefused))
      · exact .inr (.inr (hhas hex))
    · rw [hresponses] at hstatus
      rw [hrejected]
      exact hsame.2 (h.refused status hstatus)
    · rw [hresponses] at hundelivered
      exact hhas (h.undelivered hundelivered)
  · have hlatest : (settingsResponses g ex'.trace).getLast? = some response := by
      rw [hresponses, hsettings, List.getLast?_append]
      simp [Sending.settingsResponse]
    have htaken := h.lastTaken_eq horder hround he
    have hsent : .requested ⟨g, .visibility e.id e.settings, response⟩ ∈ ex'.trace := by
      rw [htrace]
      refine List.mem_append_right _ (List.mem_map.2 ⟨_, ?_, rfl⟩)
      apply mem_requests_of_mem_requestsTo (g := g)
      rw [sendReady, hrequests.all, hsettings]
      simp
    refine ⟨hfirst, fun id hid => ?_, fun status hstatus => ?_, fun hundelivered => ?_, hidle⟩
    · rw [hlast, htaken, Option.mem_some_iff] at hid
      subst hid
      cases response with
      | delivered => exact .inl ⟨e.settings, hsent⟩
      | refused status => exact .inr (.inl (hrejected ▸ hsettled))
      | undelivered => exact .inr (.inr (hback e he hsettled.2.1))
    · rw [hlatest, Option.some.injEq] at hstatus
      subst hstatus
      rw [hrejected]
      exact hsettled
    · rw [hlatest, Option.some.injEq] at hundelivered
      subst hundelivered
      exact hback e he hsettled.2.1

theorem settingsKnown_of_reachable (h : (proxyMachine V).Reachable ex) (g : Namespace) :
    SettingsKnown ex g := by
  have hinv : InOrder ex ∧ SettingsKnown ex g := by
    refine h.invariant (I := fun ex => InOrder ex ∧ SettingsKnown ex g) ?_ ?_
    · rintro _ rfl
      exact ⟨.start, .start⟩
    · rintro ex action ex' ⟨horder, hknown⟩ hstep
      refine ⟨inOrder_step horder hstep, ?_⟩
      cases action with
      | enqueue operation now =>
          cases hstep
          exact hknown.enqueue horder operation now
      | startRound now => exact hknown.startRound horder hstep
      | finishRound responses now => exact hknown.finishRound horder hstep
  exact hinv.2

end ProxyExecutor

/-- The place of a request among the requests of a round to its namespace. -/
def RequestKind.stage : RequestKind V → Nat
  | reset _ => 0
  | visibility _ _ => 1
  | entities _ _ => 2

open Sending in
/-- A round sends to a namespace its reset, its settings and its data in this order. -/
theorem Sending.NamespaceRequests.ordered {entries : List (ProxyEntry V)} {wire : Wire V}
    {resets settings data : List (Request V)}
    (h : NamespaceRequests g entries wire resets settings data) :
    ((sendBatch entries wire).wire.requestsTo g).Pairwise
      fun first second => first.kind.stage ≤ second.kind.stage := by
  have hresets : ∀ request ∈ resets, request.kind.stage = 0 := fun request hrequest => by
    obtain ⟨path, hkind⟩ := h.resets_kind request hrequest
    rw [hkind]
    rfl
  have hsettings : ∀ request ∈ settings, request.kind.stage = 1 := fun request hrequest => by
    rcases h.settings_sent with ⟨hnil, -⟩ | ⟨e, response, -, hsettings, -⟩
    · rw [hnil] at hrequest
      cases hrequest
    · rw [hsettings, List.mem_singleton] at hrequest
      rw [hrequest]
      rfl
  have hdata : ∀ request ∈ data, request.kind.stage = 2 := fun request hrequest => by
    obtain ⟨type_, data', hkind⟩ := h.data_kind request hrequest
    rw [hkind]
    rfl
  have hsame : ∀ (requests : List (Request V)) (stage : Nat),
      (∀ request ∈ requests, request.kind.stage = stage) →
      requests.Pairwise fun first second => first.kind.stage ≤ second.kind.stage :=
    fun requests stage hstage => List.pairwise_of_forall_mem_list fun r hr r' hr' => by
      rw [hstage r hr, hstage r' hr']
  rw [h.all, List.pairwise_append, List.pairwise_append]
  refine ⟨hsame _ 0 hresets, ⟨hsame _ 1 hsettings, hsame _ 2 hdata, ?_⟩, ?_⟩
  · intro r hr r' hr'
    rw [hsettings r hr, hdata r' hr']
    omega
  · intro r hr r' hr'
    rw [hresets r hr]
    omega

open ProxyExecutor in
/-- In every run, data of a namespace is sent only after the settings last taken for it
were delivered; a round sends the reset of a namespace, its settings and its data in this
order, and holds the data back when the settings are not delivered. -/
theorem settings_precede_data {V : Type} {ex : ProxyExecutor V}
    (h : (proxyMachine V).Reachable ex) (g : Namespace) :
    DataAfterSettings g ex.trace ∧
      ∀ responses now ex', ex.finishRound responses now = some ex' → ∀ round ∈ ex.round,
        (((ex.sendReady round responses).wire.requestsTo g).Pairwise
          fun first second => first.kind.stage ≤ second.kind.stage) ∧
        ∀ id settings, ⟨g, .visibility id settings, .undelivered⟩ ∈
            (ex.sendReady round responses).wire.requests →
          ∀ t, ∀ e ∈ ex.pending round g t, e.data.items ≠ [] →
            ∃ f ∈ ex'.queue.entries, PutBack e f := by
  have horder := inOrder_of_reachableVia h
  refine ⟨(settingsKnown_of_reachable h g).first, fun responses now ex' hstep round hround => ?_⟩
  obtain ⟨resets, settings, data, hrequests⟩ :=
    Sending.exists_namespaceRequests g (ex.ready round) (ex.wire responses) rfl
  refine ⟨hrequests.ordered, fun id settings' hmem t e he hnonempty => ?_⟩
  -- The undelivered settings stall the namespace.
  have hstalled : g ∈ (Sending.settings (Batch.ofEntries (ex.ready round))
      (ex.wire responses)).stalled := by
    have hto : ⟨g, .visibility id settings', .undelivered⟩ ∈ resets ++ (settings ++ data) := by
      rw [← hrequests.all]
      exact List.mem_filter.2 ⟨hmem, by simp⟩
    rw [List.mem_append, List.mem_append] at hto
    rcases hto with hto | hto | hto
    · obtain ⟨path, hkind⟩ := hrequests.resets_kind _ hto
      cases hkind
    · rcases hrequests.settings_sent with ⟨hnil, -⟩ | ⟨v, response, -, hsettings, hsettled⟩
      · rw [hnil] at hto
        cases hto
      · rw [hsettings, List.mem_singleton] at hto
        cases hto
        exact hsettled.1
    · obtain ⟨type_, data', hkind⟩ := hrequests.data_kind _ hto
      cases hkind
  obtain ⟨new, -, -, hdone⟩ :=
    Sending.sendBatch_requests (g := g) (t := t) (ex.ready round) (ex.wire responses)
  have hdrops : (Sending.settings (Batch.ofEntries (ex.ready round))
      (ex.wire responses)).drops g = false := by
    simp [Sending.drops, hstalled]
  obtain ⟨item, hitem⟩ := List.exists_mem_of_ne_nil _ hnonempty
  have hkey : item.1 ∈ e.data.keys := List.mem_map.2 ⟨item, hitem, rfl⟩
  rcases hdone hdrops item.1 (mem_merged he hkey) with hall | ⟨hfree, -⟩
  · have hready := (Batch.pendingFor_sublist _).subset he
    have hgo : e ∈ ex.goBack round responses :=
      mem_goBack.2 ⟨(mem_ready.1 hready).1, .inl (hall e he hkey)⟩
    obtain ⟨f, hf, hef⟩ := horder.live_of_goBack hstep hround hgo
    obtain ⟨-, -, hround', -⟩ := finishRound_spec hstep
    rw [live, inRound, hround', Option.elim_none, List.nil_append] at hf
    exact ⟨f, hf, hef⟩
  · exact absurd hstalled hfree

/-- The settings of the namespace are undelivered first, and delivered with the data in
the second round. -/
def settingsRun : List (ProxyAction Nat) :=
  [.enqueue ⟨.visibility .empty, some "g"⟩ 0, .enqueue ⟨.entities .user (.singleton "u" 1), some "g"⟩ 0,
    .startRound 0, .finishRound [.undelivered] 0, .startRound 1,
    .finishRound [.delivered, .delivered] 1]

def settingsEnd : ProxyExecutor Nat :=
  ((proxyMachine Nat).exec .start settingsRun).get (by decide +kernel)

theorem settings_precede_data_retried :
    DataAfterSettings (some "g") settingsEnd.trace ∧
      .requested ⟨some "g", .entities .user (.singleton "u" 1), .delivered⟩ ∈ settingsEnd.trace := by
  have hrun : (proxyMachine Nat).exec .start settingsRun = some settingsEnd :=
    (Option.some_get _).symm
  exact ⟨(settings_precede_data (Machine.reachable_of_exec rfl hrun) (some "g")).1,
    by decide +kernel⟩

end Service
end ContestManagement
