import ContestManagement.Service.LatestData
import ContestManagement.Service.ProxyRequests

/-!
# No entry of a round is lost

Every entry that a round takes from the queue is answered by the ranking, made obsolete
by a later entry of the round, dropped because the visibility settings of its namespace
stand refused, or put back as it was.
-/

namespace ContestManagement
namespace Service

open Lib Io

variable {V : Type} {g : Namespace}

/-- The responses to the settings of a namespace, in order. -/
def settingsResponses (g : Namespace) (trace : List (ProxyEvent V)) : List Response :=
  trace.filterMap fun event =>
    match event with
    | .taken _ => none
    | .requested request => Sending.settingsResponse g request

/-- The last settings of the namespace that the ranking answered were refused. -/
def SettingsRefused (g : Namespace) (trace : List (ProxyEvent V)) : Prop :=
  ∃ status, ((settingsResponses g trace).filter (· ≠ .undelivered)).getLast? =
    some (.refused status)

theorem settingsResponses_taken (trace : List (ProxyEvent V)) (entries : List (ProxyEntry V)) :
    settingsResponses g (trace ++ entries.map fun entry => .taken entry.item) =
      settingsResponses g trace := by
  rw [settingsResponses, List.filterMap_append, List.filterMap_map]
  simp [settingsResponses]

theorem settingsResponses_requested (trace : List (ProxyEvent V)) (requests : List (Request V)) :
    settingsResponses g (trace ++ requests.map .requested) =
      settingsResponses g trace ++ requests.filterMap (Sending.settingsResponse g) := by
  rw [settingsResponses, List.filterMap_append, List.filterMap_map]
  rfl

/-- The ways in which a round, which ends with `ex'`, deals with an entry. -/
inductive Accounted (ex ex' : ProxyExecutor V) (round : ProxyRound V) (responses : List Response)
    (e : ProxyEntry V) : Prop
  | noEntity (t : EntityType) (data : Dict String V)
      (operation : e.item.operation.payload = .entities t data) (empty : data.items = [])
  /-- Every entity was delivered or refused in the round, on its own or with others. -/
  | answered (t : EntityType) (data : Dict String V)
      (operation : e.item.operation.payload = .entities t data)
      (each : ∀ key ∈ data.keys,
        EntitySettled (ex.sendReady round responses).wire.requests e.group t key)
  | resetAnswered (operation : e.item.operation.payload = .reset)
      (each : Sending.ResetAnswered e.group (ex.sendReady round responses).wire.requests)
  | settingsAnswered (settings : Dict String V) (response : Response)
      (operation : e.item.operation.payload = .visibility settings)
      (answered : response ≠ .undelivered)
      (sent : ⟨e.group, .visibility e.id settings, response⟩ ∈
        (ex.sendReady round responses).wire.requests)
  /-- A later reset of the namespace makes a reset or data obsolete. -/
  | resetLater (f : ProxyEntry V) (taken : f ∈ round.entries) (later : e.id < f.id)
      (operation : ∀ settings, e.item.operation.payload ≠ .visibility settings)
      (reset : f.item.operation = ⟨.reset, e.group⟩)
  | settingsLater (f : ProxyEntry V) (taken : f ∈ round.entries) (later : e.id < f.id)
      (settings settings' : Dict String V)
      (operation : e.item.operation.payload = .visibility settings)
      (renewed : f.item.operation = ⟨.visibility settings', e.group⟩)
  | dropped (t : EntityType) (data : Dict String V)
      (operation : e.item.operation.payload = .entities t data)
      (drops : ex.drops round responses e.group) (refused : SettingsRefused e.group ex'.trace)
  | back (f : ProxyEntry V) (queued : f ∈ ex'.queue.entries) (item : f.item = e.item)
      (priority : f.priority = e.priority) (timestamp : f.timestamp = e.timestamp)

namespace ProxyExecutor

variable {ex ex' : ProxyExecutor V} {round : ProxyRound V} {responses : List Response} {now : ℚ}

theorem mem_requests_of_mem_requestsTo {w : Wire V} {request : Request V}
    (h : request ∈ w.requestsTo g) : request ∈ w.requests :=
  (List.mem_filter.1 h).1

/-- A round keeps the namespaces whose settings stand refused. -/
theorem settingsRefused_of_rejected
    (htrace : g ∈ ex.rejectedVisibility → SettingsRefused g ex.trace)
    (h : g ∈ (ex.sendReady round responses).wire.rejectedVisibility) :
    SettingsRefused g
      (ex.trace ++ (ex.sendReady round responses).wire.requests.map .requested) := by
  obtain ⟨resets, settings, data, hrequests⟩ :=
    Sending.exists_namespaceRequests g (ex.ready round) (ex.wire responses) rfl
  have hresponses := hrequests.settingsResponses
  -- Without an answer about settings, the last answer is the one before the round.
  have hold : g ∈ ex.rejectedVisibility →
      (settings.filterMap (Sending.settingsResponse g)).filter (· ≠ .undelivered) = [] →
      SettingsRefused g
        (ex.trace ++ (ex.sendReady round responses).wire.requests.map .requested) := by
    intro hrejected hnone
    obtain ⟨status, hlast⟩ := htrace hrejected
    refine ⟨status, ?_⟩
    rw [settingsResponses_requested, sendReady, hresponses, List.filter_append, hnone,
      List.append_nil, hlast]
  rcases hrequests.settings_sent with ⟨hnil, hrejected, -⟩ | ⟨e, response, -, hsettings, hsettled⟩
  · exact hold (hrejected.1 h) (by rw [hnil]; rfl)
  · cases response with
    | delivered => exact absurd h hsettled
    | undelivered =>
        exact hold (hsettled.2.2.1 h) (by rw [hsettings]; simp [Sending.settingsResponse])
    | refused status =>
        refine ⟨status, ?_⟩
        rw [settingsResponses_requested, sendReady, hresponses, hsettings, List.filter_append,
          List.getLast?_append]
        simp [Sending.settingsResponse]

/-- Only namespaces with refused settings are remembered as such. -/
theorem settingsRefused_of_reachable (h : (proxyMachine V).Reachable ex) :
    ∀ g ∈ ex.rejectedVisibility, SettingsRefused g ex.trace := by
  refine h.invariant (I := fun ex => ∀ g ∈ ex.rejectedVisibility, SettingsRefused g ex.trace) ?_ ?_
  · rintro _ rfl g hg
    cases hg
  · intro ex action ex' hex hstep g hg
    cases action with
    | enqueue operation now =>
        cases hstep
        exact hex g hg
    | startRound now =>
        obtain ⟨-, -, -, -, hrejected, htrace⟩ := startRound_spec hstep
        rw [hrejected] at hg
        obtain ⟨status, hlast⟩ := hex g hg
        refine ⟨status, ?_⟩
        rw [htrace, settingsResponses_taken]
        exact hlast
    | finishRound responses now =>
        obtain ⟨round, -, -, -, -, hrejected, htrace⟩ := finishRound_spec hstep
        rw [hrejected] at hg
        rw [htrace]
        exact settingsRefused_of_rejected (hex g) hg

/-- An entry of the round that goes back is in the queue again. -/
theorem InOrder.accounted_back (horder : InOrder ex) (hround : ex.round = some round)
    (hstep : ex.finishRound responses now = some ex') {e : ProxyEntry V}
    (h : e ∈ ex.goBack round responses) : Accounted ex ex' round responses e := by
  obtain ⟨f, hf, hef⟩ := horder.live_of_goBack hstep hround h
  obtain ⟨-, -, hround', -⟩ := finishRound_spec hstep
  rw [live, inRound, hround', Option.elim_none, List.nil_append] at hf
  exact .back f hf hef.item hef.priority hef.timestamp

/-- The entities of a pending entry are among the merged data. -/
theorem mem_merged {entries : List (ProxyEntry V)} {e : ProxyEntry V} (he : e ∈ entries)
    {key : String} (hkey : key ∈ e.data.keys) : key ∈ (Sending.merged entries).keys := by
  obtain ⟨value, hvalue⟩ := Dict.mem_keys_iff.1 hkey
  have hmem : value ∈ entries.filterMap fun e => e.data.get? key :=
    List.mem_filterMap.2 ⟨e, he, hvalue⟩
  rw [Dict.mem_keys_iff, get?_merged]
  exact ⟨_, List.getLast?_eq_getLast_of_ne_nil (List.ne_nil_of_mem hmem)⟩

theorem InOrder.accounted_data (horder : InOrder ex) (hround : ex.round = some round)
    (hstep : ex.finishRound responses now = some ex')
    (hrefused : ∀ g ∈ ex.rejectedVisibility, SettingsRefused g ex.trace) {e : ProxyEntry V}
    (he : e ∈ ex.ready round) {t : EntityType} {data : Dict String V}
    (hoperation : e.item.operation = ⟨.entities t data, g⟩) :
    Accounted ex ex' round responses e := by
  have hsorted := horder.ready_sorted hround
  have hmem := (mem_ready.1 he).1
  have hpayload : e.item.operation.payload = .entities t data := by rw [hoperation]
  have hgroup : e.group = g := by rw [ProxyEntry.group, hoperation]
  have hdata : e.data = data := by rw [ProxyEntry.data, hoperation]
  have hfor : (e.item.operation.dataFor g t).isSome := by
    rw [ProxyOperation.dataFor_eq_some_iff.2 hoperation]
    rfl
  -- Either a reset follows the entry in the batch, or it is pending.
  by_cases hresets : ∃ r ∈ ex.ready round, r.item.operation.resets g ∧ e.id ≤ r.id
  · obtain ⟨r, hr, hreset, hle⟩ := hresets
    rw [ProxyOperation.resets_iff] at hreset
    have hne : e.id ≠ r.id := by
      intro heq
      obtain rfl := eq_of_id_eq hsorted he hr heq
      rw [hoperation] at hreset
      cases hreset
    refine .resetLater r (mem_ready.1 hr).1 (by omega) ?_ (by rw [hreset, hgroup])
    intro settings hsettings
    rw [hpayload] at hsettings
    cases hsettings
  have hpending : e ∈ ex.pending round g t := by
    refine Batch.mem_pendingFor hsorted he hfor fun r hr hreset => ?_
    by_contra hlt
    exact hresets ⟨r, hr, hreset, by omega⟩
  obtain ⟨new, -, hrequests, hdone⟩ :=
    Sending.sendBatch_requests (g := g) (t := t) (ex.ready round) (ex.wire responses)
  cases hdrops : ex.drops round responses g with
  | true =>
      refine .dropped t data hpayload (by rw [hgroup, hdrops]) ?_
      obtain ⟨round', hround', -, -, -, -, htrace⟩ := finishRound_spec hstep
      obtain rfl : round' = round := Option.some.inj (hround'.symm.trans hround)
      rw [hgroup, htrace]
      refine settingsRefused_of_rejected (hrefused g) ?_
      obtain ⟨-, hrejected, -⟩ := Sending.requests_data g (ex.ready round') (ex.wire responses)
      simp only [drops, Sending.drops, Bool.and_eq_true, decide_eq_true_eq] at hdrops
      exact hrejected.2 hdrops.1
  | false =>
      by_cases hunsent : e.id ∈ (ex.sendReady round responses).unsent
      case pos => exact horder.accounted_back hround hstep (mem_goBack.2 ⟨hmem, .inl hunsent⟩)
      by_cases hempty : data.items = []
      case pos => exact .noEntity t data hpayload hempty
      refine .answered t data hpayload fun key hkey => ?_
      rw [← hdata] at hkey
      rcases hdone hdrops key (mem_merged hpending hkey) with hall | ⟨-, hsettled⟩
      · exact absurd (hall e hpending hkey) hunsent
      · rw [hgroup]
        exact .of_requestsFor (hrequests ▸ hsettled)

theorem InOrder.accounted_reset (horder : InOrder ex) (hround : ex.round = some round)
    (hstep : ex.finishRound responses now = some ex') {e : ProxyEntry V}
    (he : e ∈ ex.ready round) (hoperation : e.item.operation = ⟨.reset, g⟩) :
    Accounted ex ex' round responses e := by
  have hsorted := horder.ready_sorted hround
  have hpayload : e.item.operation.payload = .reset := by rw [hoperation]
  have hgroup : e.group = g := by rw [ProxyEntry.group, hoperation]
  obtain ⟨r, hr, hle⟩ := Batch.exists_resets hsorted he (ProxyOperation.resets_iff.2 hoperation)
  obtain ⟨hrmem, hreset⟩ := Batch.resets_ofEntries hr
  by_cases hlast : e.id = r.id
  · obtain rfl := eq_of_id_eq hsorted he hrmem hlast
    obtain ⟨-, -, hanswered⟩ := Sending.requests_afterResets g (ex.ready round) (ex.wire responses)
    obtain ⟨⟨data, hdata, -⟩, -, hunsentdata⟩ :=
      Sending.requests_data g (ex.ready round) (ex.wire responses)
    have hsettings : (Sending.afterResets (ex.ready round) (ex.wire responses)).unsent ⊆
          (ex.sendReady round responses).unsent ∧
        (Sending.afterResets (ex.ready round) (ex.wire responses)).wire.requestsTo g ⊆
          (ex.sendReady round responses).wire.requestsTo g := by
      rw [sendReady, hdata]
      rcases Sending.requests_settings g (ex.ready round) (ex.wire responses) with
        ⟨-, helse⟩ | ⟨v, -, hunsent, ⟨-, -, -, hsame⟩ | ⟨response, hsent, -⟩⟩
      · rw [helse.requests]
        exact ⟨fun x hx => hunsentdata (helse.unsent hx), List.subset_append_left _ _⟩
      · rw [hsame]
        exact ⟨fun x hx => hunsentdata (hunsent hx), List.subset_append_left _ _⟩
      · rw [hsent, List.append_assoc]
        exact ⟨fun x hx => hunsentdata (hunsent hx), List.subset_append_left _ _⟩
    rcases hanswered e hr with ⟨hunsent, -⟩ | hanswered
    · exact horder.accounted_back hround hstep
        (mem_goBack.2 ⟨(mem_ready.1 he).1, .inl (hsettings.1 hunsent)⟩)
    · refine .resetAnswered hpayload ?_
      rw [hgroup]
      rcases hanswered with hall | ⟨path, status, hrefused⟩
      · exact .inl fun path hpath =>
          mem_requests_of_mem_requestsTo (hsettings.2 (hall path hpath))
      · exact .inr ⟨path, status, mem_requests_of_mem_requestsTo (hsettings.2 hrefused)⟩
  · rw [ProxyOperation.resets_iff] at hreset
    refine .resetLater r (mem_ready.1 hrmem).1 (by omega) ?_ (by rw [hreset, hgroup])
    intro settings hsettings
    rw [hpayload] at hsettings
    cases hsettings

theorem InOrder.accounted_visibility (horder : InOrder ex) (hround : ex.round = some round)
    (hstep : ex.finishRound responses now = some ex') {e : ProxyEntry V}
    (he : e ∈ ex.ready round) {settings : Dict String V}
    (hoperation : e.item.operation = ⟨.visibility settings, g⟩) :
    Accounted ex ex' round responses e := by
  have hsorted := horder.ready_sorted hround
  have hpayload : e.item.operation.payload = .visibility settings := by rw [hoperation]
  have hgroup : e.group = g := by rw [ProxyEntry.group, hoperation]
  have hsettings : e.settings = settings := by rw [ProxyEntry.settings, hoperation]
  obtain ⟨v, hv, hle⟩ := Batch.exists_visibilities hsorted he hoperation
  obtain ⟨hvmem, settings', hrenewed⟩ := Batch.visibilities_ofEntries hv
  by_cases hlast : e.id = v.id
  · obtain rfl := eq_of_id_eq hsorted he hvmem hlast
    obtain ⟨⟨data, hdata, -⟩, -, hunsentdata⟩ :=
      Sending.requests_data g (ex.ready round) (ex.wire responses)
    have hgoes : e.id ∈ (Sending.settings (Batch.ofEntries (ex.ready round))
        (ex.wire responses)).unsent → Accounted ex ex' round responses e := fun hunsent =>
      horder.accounted_back hround hstep
        (mem_goBack.2 ⟨(mem_ready.1 he).1, .inl (hunsentdata hunsent)⟩)
    rcases Sending.requests_settings g (ex.ready round) (ex.wire responses) with
      ⟨hnone, -⟩ | ⟨f, hf, -, hcase⟩
    · rw [hv] at hnone
      cases hnone
    · obtain rfl : e = f := Option.some.inj (hv.symm.trans hf)
      rcases hcase with ⟨-, hunsent, -⟩ | ⟨response, hsent, hsettled, -⟩
      · exact hgoes hunsent
      · by_cases hresponse : response = .undelivered
        · subst hresponse
          exact hgoes hsettled.2
        · refine .settingsAnswered settings response hpayload hresponse ?_
          apply mem_requests_of_mem_requestsTo (g := g)
          rw [sendReady, hdata, hsent, hgroup, hsettings]
          simp
  · exact .settingsLater v (mem_ready.1 hvmem).1 (by omega) settings settings' hpayload
      (by rw [hrenewed, hgroup])

end ProxyExecutor

open ProxyExecutor in
/-- Every entry of a round is accounted for, and what goes back keeps its order. -/
theorem round_accounts_entries {V : Type} {ex ex' : ProxyExecutor V}
    (h : (proxyMachine V).Reachable ex) {round : ProxyRound V} (hround : ex.round = some round)
    {responses : List Response} {now : ℚ} (hstep : ex.finishRound responses now = some ex') :
    (∀ e ∈ round.entries, Accounted ex ex' round responses e) ∧
      ∃ back, List.Forall₂ PutBack (ex.goBack round responses) back ∧
        back.Sublist ex'.queue.entries := by
  have horder := inOrder_of_reachableVia h
  constructor
  · intro e he
    by_cases hdue : ex.isDue e.group round.started = true
    · have hready := mem_ready.2 ⟨he, hdue⟩
      cases hoperation : e.item.operation with
      | mk payload group =>
          cases payload with
          | reset => exact horder.accounted_reset hround hstep hready hoperation
          | visibility settings => exact horder.accounted_visibility hround hstep hready hoperation
          | entities t data =>
              exact horder.accounted_data hround hstep (settingsRefused_of_reachable h) hready
                hoperation
    · exact horder.accounted_back hround hstep (mem_goBack.2 ⟨he, .inr (by simpa using hdue)⟩)
  · obtain ⟨round', back, hround', hback, hlive, -⟩ := horder.live_finishRound hstep
    obtain rfl : round' = round := Option.some.inj (hround'.symm.trans hround)
    obtain ⟨-, -, hnone, -⟩ := finishRound_spec hstep
    rw [live, inRound, hnone, Option.elim_none, List.nil_append] at hlive
    refine ⟨back, hback, ?_⟩
    rw [hlive]
    exact List.sublist_append_left _ _

/-- A round about two namespaces: the data of one of them, and the reset, the settings
and the data of the other. -/
def mixedActions : List (ProxyAction Nat) :=
  [.enqueue twoContests 0, .enqueue ⟨.entities .user (.singleton "u" 1), some "g"⟩ 0,
    .enqueue ⟨.reset, some "g"⟩ 0, .enqueue ⟨.visibility .empty, some "g"⟩ 0,
    .enqueue ⟨.entities .user (.singleton "v" 1), some "g"⟩ 0, .enqueue firstContest 0,
    .startRound 0]

def mixedStart : ProxyExecutor Nat :=
  ((proxyMachine Nat).exec .start mixedActions).get (by decide +kernel)

def mixedRound : ProxyRound Nat :=
  mixedStart.round.get (by decide +kernel)

/-- The reset goes through, the settings are refused, and a list of contests is split. -/
def mixedResponses : List Response :=
  [.delivered, .delivered, .refused (some 404), .refused (some 400), .delivered, .undelivered]

def mixedEnd : ProxyExecutor Nat :=
  (mixedStart.finishRound mixedResponses 0).get (by decide +kernel)

theorem round_accounts_entries_mixed :
    (∀ e ∈ mixedRound.entries, Accounted mixedStart mixedEnd mixedRound mixedResponses e) ∧
      ∃ back, List.Forall₂ PutBack (mixedStart.goBack mixedRound mixedResponses) back ∧
        back.Sublist mixedEnd.queue.entries := by
  have hrun : (proxyMachine Nat).exec .start mixedActions = some mixedStart :=
    (Option.some_get _).symm
  have hstep : mixedStart.finishRound mixedResponses 0 = some mixedEnd := (Option.some_get _).symm
  exact round_accounts_entries (Machine.reachable_of_exec rfl hrun) (Option.some_get _).symm hstep

end Service
end ContestManagement
