import ContestManagement.Service.ProxyQueue

/-!
# The requests of a batch to one namespace

A batch sends to a namespace its reset, then its visibility settings, then its data.
What happens to other namespaces in between changes nothing for it, so each of the three
loops of `_send_batch_sync` is looked at only where it comes to the namespace.
-/

namespace ContestManagement
namespace Service

open Lib Io

variable {V : Type} {g : Namespace}

/-- The requests to a namespace. -/
def Wire.requestsTo (g : Namespace) (w : Wire V) : List (Request V) :=
  w.requests.filter fun request => request.group = g

namespace Wire

variable {p : Request V → Prop} {w w' : Wire V}

/-- Requests to another namespace. -/
theorem Adds.requestsTo_of_ne (h : Adds p w w') (hp : ∀ request, p request → request.group ≠ g) :
    w'.requestsTo g = w.requestsTo g := by
  obtain ⟨-, new, hnew, hall⟩ := h
  have hnone : new.filter (fun request => decide (request.group = g)) = [] := by
    rw [List.filter_eq_nil_iff]
    intro request hrequest
    simpa using hp request (hall request hrequest)
  rw [requestsTo, hnew, List.filter_append, hnone, List.append_nil]
  rfl

/-- Requests to the namespace. -/
theorem Adds.requestsTo_self (h : Adds p w w') :
    ∃ new, w'.requestsTo g = w.requestsTo g ++ new ∧ ∀ request ∈ new, p request := by
  obtain ⟨-, new, hnew, hall⟩ := h
  refine ⟨new.filter fun request => request.group = g, ?_, ?_⟩
  · rw [requestsTo, hnew, List.filter_append]
    rfl
  · intro request hrequest
    exact hall request (List.mem_filter.1 hrequest).1

/-- A reset is delivered to every resource, or refused by one, or goes back. -/
theorem sendReset_answered (w : Wire V) (group : Namespace) (paths : List EntityType)
    (h : (w.sendReset group paths).1 ≠ .unsent) :
    (∀ path ∈ paths, ⟨group, .reset path, .delivered⟩ ∈ (w.sendReset group paths).2.requests) ∨
      ∃ path status, ⟨group, .reset path, .refused status⟩ ∈
        (w.sendReset group paths).2.requests := by
  induction paths generalizing w with
  | nil => exact .inl (by simp)
  | cons path rest ih =>
      -- The response of the first request decides whether there is a second one.
      obtain ⟨response, hattempt⟩ : ∃ response,
          response = w.responses.head?.getD .undelivered := ⟨_, rfl⟩
      have hin : ⟨group, .reset path, response⟩ ∈ (w.attempt group (.reset path)).2.requests := by
        simp only [attempt, ← hattempt]
        cases response <;> simp
      unfold sendReset at h ⊢
      split
      case h_1 w' heq =>
        rw [heq] at h
        have hdelivered : response = .delivered := by
          simp only [attempt, ← hattempt] at heq
          cases response with
          | delivered => rfl
          | refused status => cases heq
          | undelivered => cases heq
        rw [heq, hdelivered] at hin
        have hmore := (w'.adds_sendReset group rest).subset
        rcases ih w' h with hall | hrefused
        · refine .inl fun path' hpath' => ?_
          rcases List.mem_cons.1 hpath' with rfl | hpath'
          · exact hmore hin
          · exact hall path' hpath'
        · exact .inr hrefused
      case h_2 hfailed =>
        rw [attempt, ← hattempt] at hfailed h
        refine .inr ⟨path, ?_⟩
        cases response with
        | delivered => exact absurd rfl (hfailed _)
        | refused status => exact ⟨status, hin⟩
        | undelivered => simp at h

end Wire

/-! ### Other namespaces -/

/-- What the iterations about other namespaces leave alone. -/
structure Elsewhere (g : Namespace) (s s' : Sending V) : Prop where
  requests : s'.wire.requestsTo g = s.wire.requestsTo g
  rejected : g ∈ s'.wire.rejectedVisibility ↔ g ∈ s.wire.rejectedVisibility
  stalled : g ∈ s'.stalled ↔ g ∈ s.stalled
  unsent : s.unsent ⊆ s'.unsent

namespace Elsewhere

variable {s s' s'' : Sending V}

theorem refl (s : Sending V) : Elsewhere g s s :=
  ⟨rfl, Iff.rfl, Iff.rfl, List.Subset.refl _⟩

theorem trans (h : Elsewhere g s s') (h' : Elsewhere g s' s'') : Elsewhere g s s'' :=
  ⟨h'.requests.trans h.requests, h'.rejected.trans h.rejected, h'.stalled.trans h.stalled,
    fun _ hx => h'.unsent (h.unsent hx)⟩

theorem foldl {α : Type} {f : Sending V → α → Sending V} {items : List α}
    (h : ∀ item ∈ items, ∀ s, Elsewhere g s (f s item)) (s : Sending V) :
    Elsewhere g s (items.foldl f s) := by
  induction items generalizing s with
  | nil => exact refl s
  | cons item rest ih =>
      exact (h item (by simp) s).trans (ih (fun item' h' => h item' (by simp [h'])) _)

/-- A loop over namespaces matters to one of them only where it comes to it. -/
theorem foldl_dict {β : Type} {f : Sending V → Namespace × β → Sending V}
    (h : ∀ item : Namespace × β, item.1 ≠ g → ∀ s, Elsewhere g s (f s item))
    (d : Dict Namespace β) (s : Sending V) :
    (d.get? g = none ∧ Elsewhere g s (d.items.foldl f s)) ∨
      ∃ value s', d.get? g = some value ∧ Elsewhere g s s' ∧
        Elsewhere g (f s' (g, value)) (d.items.foldl f s) := by
  have hothers : ∀ items : List (Namespace × β), g ∉ items.map Prod.fst → ∀ s,
      Elsewhere g s (items.foldl f s) := by
    intro items hitems s
    refine foldl (fun item hitem s => h item ?_ s) s
    rintro rfl
    exact hitems (List.mem_map.2 ⟨item, hitem, rfl⟩)
  cases hg : d.get? g with
  | none =>
      refine .inl ⟨rfl, hothers _ (fun hmem => ?_) s⟩
      obtain ⟨value, hvalue⟩ := Dict.mem_keys_iff.1 hmem
      rw [hg] at hvalue
      cases hvalue
  | some value =>
      obtain ⟨before, after, hitems⟩ := List.append_of_mem (Dict.mem_items_iff.2 hg)
      have hdistinct := d.distinct
      rw [hitems, List.map_append, List.map_cons, List.nodup_middle, List.nodup_cons,
        List.mem_append, not_or] at hdistinct
      refine .inr ⟨value, before.foldl f s, rfl, hothers before hdistinct.1.1 s, ?_⟩
      rw [hitems, List.foldl_append, List.foldl_cons]
      exact hothers after hdistinct.1.2 _

end Elsewhere

namespace Sending

/-! ### Resets -/

/-- The reset of a namespace was delivered to every resource, or refused by one. -/
def ResetAnswered (g : Namespace) (requests : List (Request V)) : Prop :=
  (∀ path ∈ Wire.resetResourcePaths, ⟨g, .reset path, .delivered⟩ ∈ requests) ∨
    ∃ path status, ⟨g, .reset path, .refused status⟩ ∈ requests

theorem adds_reset (s : Sending V) (item : Namespace × ProxyEntry V) :
    Wire.Adds (fun request => request.group = item.1 ∧ ∃ path, request.kind = .reset path) s.wire
      (s.reset item).wire := by
  have hadds := s.wire.adds_sendReset item.1 Wire.resetResourcePaths
  unfold reset
  split
  case h_1 wire heq =>
    rw [heq] at hadds
    exact hadds
  case h_2 outcome wire _ heq =>
    rw [heq] at hadds
    exact hadds

/-- A reset goes back and stalls its namespace, or it is answered. -/
theorem reset_self (s : Sending V) (g : Namespace) (e : ProxyEntry V) :
    (e.id ∈ (s.reset (g, e)).unsent ∧ g ∈ (s.reset (g, e)).stalled) ∨
      ResetAnswered g (s.reset (g, e)).wire.requests := by
  have hanswered := s.wire.sendReset_answered g Wire.resetResourcePaths
  unfold reset
  split
  case h_1 wire heq => exact .inl ⟨by simp, by simp⟩
  case h_2 outcome wire hunsent heq =>
    rw [heq] at hanswered
    exact .inr (hanswered fun h => hunsent h)

theorem elsewhere_reset {item : Namespace × ProxyEntry V} (h : item.1 ≠ g) (s : Sending V) :
    Elsewhere g s (s.reset item) := by
  have hadds := s.adds_reset item
  refine ⟨hadds.requestsTo_of_ne fun request hrequest => ?_, by rw [hadds.1], ?_, ?_⟩
  · rw [hrequest.1]
    exact h
  · unfold reset
    split
    case h_1 => simp [Ne.symm h]
    case h_2 => exact Iff.rfl
  · unfold reset
    split
    case h_1 => exact List.subset_append_left _ _
    case h_2 => exact List.Subset.refl _

/-! ### Visibility settings -/

/-- What the response to the settings of a namespace leaves behind. -/
def SettledBy (g : Namespace) (e : ProxyEntry V) (s : Sending V) : Response → Prop
  | .delivered => g ∉ s.wire.rejectedVisibility
  | .refused _ => g ∈ s.wire.rejectedVisibility ∧ g ∉ s.stalled
  | .undelivered => g ∈ s.stalled ∧ e.id ∈ s.unsent

theorem mem_trackVisibility_of_ne {group : Namespace} (h : group ≠ g) (w : Wire V)
    (outcome : SendOutcome) :
    g ∈ (w.trackVisibility group outcome).rejectedVisibility ↔ g ∈ w.rejectedVisibility := by
  cases outcome with
  | unsent => exact Iff.rfl
  | sent => simp [Wire.trackVisibility, Ne.symm h]
  | rejected =>
      simp only [Wire.trackVisibility]
      split
      case isTrue => exact Iff.rfl
      case isFalse => simp [Ne.symm h]

theorem elsewhere_visibility {item : Namespace × ProxyEntry V} (h : item.1 ≠ g) (s : Sending V) :
    Elsewhere g s (s.visibility item) := by
  have hadds := s.wire.adds_attempt item.1 (.visibility item.2.id item.2.settings)
  have hrequests : ∀ (w : Wire V) (outcome : SendOutcome),
      (s.wire.attempt item.1 (.visibility item.2.id item.2.settings)).2 = w →
      (w.trackVisibility item.1 outcome).requestsTo g = s.wire.requestsTo g ∧
        (g ∈ (w.trackVisibility item.1 outcome).rejectedVisibility ↔
          g ∈ s.wire.rejectedVisibility) := by
    rintro w outcome rfl
    rw [Wire.requestsTo, Wire.trackVisibility_requests, mem_trackVisibility_of_ne h, hadds.1]
    refine ⟨hadds.requestsTo_of_ne fun request hrequest => ?_, Iff.rfl⟩
    rw [hrequest.1]
    exact h
  unfold visibility
  split
  case isTrue => exact ⟨rfl, Iff.rfl, Iff.rfl, List.subset_append_left _ _⟩
  case isFalse =>
    split
    case h_1 wire heq =>
      obtain ⟨hto, hrejected⟩ := hrequests wire .unsent (by rw [heq])
      exact ⟨hto, hrejected, by simp [Ne.symm h], List.subset_append_left _ _⟩
    case h_2 outcome wire _ heq =>
      obtain ⟨hto, hrejected⟩ := hrequests wire outcome (by rw [heq])
      exact ⟨hto, hrejected, Iff.rfl, List.Subset.refl _⟩

/-- The settings of a namespace wait for its reset, or they are sent. -/
theorem visibility_self (s : Sending V) (g : Namespace) (e : ProxyEntry V) :
    ((s.visibility (g, e)).wire = s.wire ∧ g ∈ s.stalled ∧
        (s.visibility (g, e)).stalled = s.stalled ∧ e.id ∈ (s.visibility (g, e)).unsent) ∨
      ∃ response, (s.visibility (g, e)).wire.requests =
          s.wire.requests ++ [⟨g, .visibility e.id e.settings, response⟩] ∧
        SettledBy g e (s.visibility (g, e)) response ∧
        (response = .undelivered →
          (s.visibility (g, e)).wire.rejectedVisibility = s.wire.rejectedVisibility) := by
  unfold visibility
  split
  case isTrue hstalled => exact .inl ⟨rfl, hstalled, rfl, by simp⟩
  case isFalse hstalled =>
    simp only [Wire.attempt]
    cases s.wire.responses.head?.getD .undelivered with
    | undelivered => exact .inr ⟨.undelivered, rfl, by simp [SettledBy], fun _ => rfl⟩
    | delivered => exact .inr ⟨.delivered, rfl, by simp [SettledBy, Wire.trackVisibility], by simp⟩
    | refused status =>
        refine .inr ⟨.refused status, by simp only [Wire.trackVisibility_requests], ⟨?_, hstalled⟩,
          by simp⟩
        simp only [Wire.trackVisibility]
        split
        case isTrue hmem => exact hmem
        case isFalse => simp

/-! ### Data -/

/-- A request about entities of a namespace. -/
def AboutData (group : Namespace) (request : Request V) : Prop :=
  request.group = group ∧ ∃ type_ data, request.kind = .entities type_ data

theorem adds_foldl_entities (group : Namespace) (groupEntries : EntityType → List (ProxyEntry V))
    (types : List EntityType) (s : Sending V) :
    Wire.Adds (AboutData group) s.wire (types.foldl (entities group groupEntries) s).wire ∧
      (group ∈ s.stalled → (types.foldl (entities group groupEntries) s).wire = s.wire) ∧
      s.unsent ⊆ (types.foldl (entities group groupEntries) s).unsent ∧
      (types.foldl (entities group groupEntries) s).stalled ⊆ s.stalled ++ [group] := by
  induction types generalizing s with
  | nil => exact ⟨.refl _, fun _ => rfl, List.Subset.refl _, List.subset_append_left _ _⟩
  | cons type_ rest ih =>
      have hsends := sendsType_entities group groupEntries s type_
      obtain ⟨hadds, hheld, hunsent, hstalled⟩ := ih (entities group groupEntries s type_)
      have habout : Wire.Adds (AboutData group) s.wire (entities group groupEntries s type_).wire :=
        hsends.adds.mono fun request h => by
          obtain ⟨hgroup, part, -, hkind⟩ := h
          exact ⟨hgroup, type_, part, hkind⟩
      refine ⟨habout.trans hadds, fun h => ?_, fun _ hx => hunsent (hsends.unsent hx), fun x hx => ?_⟩
      · exact (hheld (hsends.stalled h)).trans (hsends.held h)
      · rcases List.mem_append.1 (hstalled hx) with hx | hx
        · exact hsends.stalled_from hx
        · exact List.mem_append_right _ hx

/-- Data of a namespace is sent only when nothing stalls it and its settings do not stand
refused. -/
theorem namespaceData_requests (s : Sending V)
    (item : Namespace × (EntityType → List (ProxyEntry V))) :
    Wire.Adds (AboutData item.1) s.wire (s.namespaceData item).wire ∧
      (item.1 ∈ s.stalled ∨ item.1 ∈ s.wire.rejectedVisibility →
        (s.namespaceData item).wire = s.wire) ∧
      s.unsent ⊆ (s.namespaceData item).unsent ∧
      (s.namespaceData item).stalled ⊆ s.stalled ++ [item.1] := by
  obtain ⟨hadds, hheld, hunsent, hstalled⟩ :=
    adds_foldl_entities item.1 item.2 EntityType.all s
  unfold namespaceData
  split
  case isTrue =>
    exact ⟨.refl _, fun _ => rfl, List.Subset.refl _, List.subset_append_left _ _⟩
  case isFalse hdrops =>
    refine ⟨hadds, fun h => hheld ?_, hunsent, hstalled⟩
    rcases h with h | h
    · exact h
    · simpa [drops, h] using hdrops

theorem elsewhere_namespaceData {item : Namespace × (EntityType → List (ProxyEntry V))}
    (h : item.1 ≠ g) (s : Sending V) : Elsewhere g s (s.namespaceData item) := by
  obtain ⟨hadds, -, hunsent, hstalled⟩ := s.namespaceData_requests item
  refine ⟨hadds.requestsTo_of_ne fun request hrequest => ?_, by rw [hadds.1], ⟨fun hmem => ?_, ?_⟩,
    hunsent⟩
  · rw [hrequest.1]
    exact h
  · rcases List.mem_append.1 (hstalled hmem) with hmem | hmem
    · exact hmem
    · exact absurd (List.mem_singleton.1 hmem).symm h
  · exact (untouched_namespaceData (t := .contest) h s).stalled

/-! ### The whole batch -/

variable (g) (entries : List (ProxyEntry V)) (wire : Wire V)

/-- The state of a batch after its resets. -/
def afterResets : Sending V :=
  (Batch.ofEntries entries).resets.items.foldl reset ⟨wire, [], []⟩

theorem settings_eq : settings (Batch.ofEntries entries) wire =
    (Batch.ofEntries entries).visibilities.items.foldl visibility (afterResets entries wire) :=
  rfl

theorem requests_afterResets :
    (∃ new, (afterResets entries wire).wire.requestsTo g = wire.requestsTo g ++ new ∧
        ∀ request ∈ new, ∃ path, request.kind = .reset path) ∧
      (g ∈ (afterResets entries wire).wire.rejectedVisibility ↔ g ∈ wire.rejectedVisibility) ∧
      ∀ e, (Batch.ofEntries entries).resets.get? g = some e →
        (e.id ∈ (afterResets entries wire).unsent ∧ g ∈ (afterResets entries wire).stalled) ∨
          ResetAnswered g ((afterResets entries wire).wire.requestsTo g) := by
  rcases Elsewhere.foldl_dict (g := g) (fun item h s => elsewhere_reset h s)
    (Batch.ofEntries entries).resets ⟨wire, [], []⟩ with
    ⟨hnone, helse⟩ | ⟨e, s, hsome, hbefore, hafter⟩
  · refine ⟨⟨[], ?_, by simp⟩, helse.rejected, ?_⟩
    · rw [List.append_nil]
      exact helse.requests
    · intro e he
      rw [hnone] at he
      cases he
  · have hadds := s.adds_reset (g, e)
    obtain ⟨new, hnew, hkind⟩ := hadds.requestsTo_self (g := g)
    refine ⟨⟨new, ?_, fun request h => (hkind request h).2⟩, ?_, ?_⟩
    · rw [afterResets, hafter.requests, hnew, hbefore.requests]
    · rw [afterResets, hafter.rejected, hadds.1, hbefore.rejected]
    · intro e' he'
      rw [hsome] at he'
      cases he'
      rcases s.reset_self g e with ⟨hunsent, hstalled⟩ | hanswered
      · exact .inl ⟨hafter.unsent hunsent, hafter.stalled.2 hstalled⟩
      · refine .inr ?_
        have hmem : ∀ request ∈ (s.reset (g, e)).wire.requests, request.group = g →
            request ∈ (afterResets entries wire).wire.requestsTo g := by
          intro request hrequest hgroup
          rw [afterResets, hafter.requests]
          exact List.mem_filter.2 ⟨hrequest, by simpa using hgroup⟩
        rcases hanswered with hall | ⟨path, status, hrefused⟩
        · exact .inl fun path hpath => hmem _ (hall path hpath) rfl
        · exact .inr ⟨path, status, hmem _ hrefused rfl⟩

/-- What the settings of a batch are for a namespace. -/
theorem requests_settings :
    ((Batch.ofEntries entries).visibilities.get? g = none ∧
        Elsewhere g (afterResets entries wire) (settings (Batch.ofEntries entries) wire)) ∨
      ∃ e, (Batch.ofEntries entries).visibilities.get? g = some e ∧
        (afterResets entries wire).unsent ⊆ (settings (Batch.ofEntries entries) wire).unsent ∧
        ((g ∈ (settings (Batch.ofEntries entries) wire).stalled ∧
            e.id ∈ (settings (Batch.ofEntries entries) wire).unsent ∧
            (g ∈ (settings (Batch.ofEntries entries) wire).wire.rejectedVisibility ↔
              g ∈ (afterResets entries wire).wire.rejectedVisibility) ∧
            (settings (Batch.ofEntries entries) wire).wire.requestsTo g =
              (afterResets entries wire).wire.requestsTo g) ∨
          ∃ response, (settings (Batch.ofEntries entries) wire).wire.requestsTo g =
              (afterResets entries wire).wire.requestsTo g ++
                [⟨g, .visibility e.id e.settings, response⟩] ∧
            SettledBy g e (settings (Batch.ofEntries entries) wire) response ∧
            (response = .undelivered →
              (g ∈ (settings (Batch.ofEntries entries) wire).wire.rejectedVisibility ↔
                g ∈ (afterResets entries wire).wire.rejectedVisibility))) := by
  rcases Elsewhere.foldl_dict (g := g) (fun item h s => elsewhere_visibility h s)
    (Batch.ofEntries entries).visibilities (afterResets entries wire) with
    ⟨hnone, helse⟩ | ⟨e, s, hsome, hbefore, hafter⟩
  · exact .inl ⟨hnone, helse⟩
  · have hmono : s.unsent ⊆ (s.visibility (g, e)).unsent := by
      unfold visibility
      split
      case isTrue => exact List.subset_append_left _ _
      case isFalse =>
        split
        case h_1 => exact List.subset_append_left _ _
        case h_2 => exact List.Subset.refl _
    refine .inr ⟨e, hsome, fun x hx => hafter.unsent (hmono (hbefore.unsent hx)), ?_⟩
    rcases s.visibility_self g e with
      ⟨hwire, hstalled, hsame, hunsent⟩ | ⟨response, hsent, hsettled, hundelivered⟩
    · refine .inl ⟨hafter.stalled.2 (hsame ▸ hstalled), hafter.unsent hunsent, ?_, ?_⟩
      · rw [settings_eq, hafter.rejected, hwire]
        exact hbefore.rejected
      rw [settings_eq, hafter.requests, hwire]
      exact hbefore.requests
    · refine .inr ⟨response, ?_, ?_, fun h => ?_⟩
      · rw [settings_eq, hafter.requests, Wire.requestsTo, hsent, List.filter_append]
        rw [← hbefore.requests]
        simp [Wire.requestsTo]
      · cases response with
        | delivered => exact fun h => hsettled (hafter.rejected.1 h)
        | refused status =>
            exact ⟨hafter.rejected.2 hsettled.1, fun h => hsettled.2 (hafter.stalled.1 h)⟩
        | undelivered => exact ⟨hafter.stalled.2 hsettled.1, hafter.unsent hsettled.2⟩
      · rw [settings_eq, hafter.rejected, hundelivered h]
        exact hbefore.rejected

/-- What the data of a batch is for a namespace. -/
theorem requests_data :
    (∃ new, (sendBatch entries wire).wire.requestsTo g =
          (settings (Batch.ofEntries entries) wire).wire.requestsTo g ++ new ∧
        (∀ request ∈ new, ∃ type_ data, request.kind = .entities type_ data) ∧
        ((Batch.ofEntries entries).pending.get? g = none → new = []) ∧
        (g ∈ (settings (Batch.ofEntries entries) wire).stalled ∨
          g ∈ (settings (Batch.ofEntries entries) wire).wire.rejectedVisibility → new = [])) ∧
      (g ∈ (sendBatch entries wire).wire.rejectedVisibility ↔
        g ∈ (settings (Batch.ofEntries entries) wire).wire.rejectedVisibility) ∧
      (settings (Batch.ofEntries entries) wire).unsent ⊆ (sendBatch entries wire).unsent := by
  rcases Elsewhere.foldl_dict (g := g) (fun item h s => elsewhere_namespaceData h s)
    (Batch.ofEntries entries).pending (settings (Batch.ofEntries entries) wire) with
    ⟨-, helse⟩ | ⟨groupEntries, s, hsome, hbefore, hafter⟩
  · refine ⟨⟨[], ?_, by simp, fun _ => rfl, fun _ => rfl⟩, helse.rejected, helse.unsent⟩
    rw [List.append_nil]
    exact helse.requests
  · obtain ⟨hadds, hheld, hunsent, -⟩ := s.namespaceData_requests (g, groupEntries)
    obtain ⟨new, hnew, hkind⟩ := hadds.requestsTo_self (g := g)
    refine ⟨⟨new, ?_, fun request h => (hkind request h).2, fun h => ?_, fun h => ?_⟩, ?_,
      fun x hx => hafter.unsent (hunsent (hbefore.unsent hx))⟩
    · rw [sendBatch, hafter.requests, hnew, hbefore.requests]
    · rw [hsome] at h
      cases h
    · rw [← hbefore.stalled, ← hbefore.rejected] at h
      rw [hheld h] at hnew
      exact List.self_eq_append_right.1 hnew
    · rw [sendBatch, hafter.rejected, hadds.1, hbefore.rejected]

/-- The requests of a batch to one namespace: those of its reset, of its settings and of
its data, in this order. -/
structure NamespaceRequests (resets settings data : List (Request V)) : Prop where
  all : (sendBatch entries wire).wire.requestsTo g = resets ++ (settings ++ data)
  resets_kind : ∀ request ∈ resets, ∃ path, request.kind = .reset path
  data_kind : ∀ request ∈ data, ∃ type_ data, request.kind = .entities type_ data
  /-- No data without anything pending, or while the namespace is stalled or refused. -/
  data_nil : (Batch.ofEntries entries).pending.get? g = none ∨
    g ∈ (Sending.settings (Batch.ofEntries entries) wire).stalled ∨
    g ∈ (sendBatch entries wire).wire.rejectedVisibility → data = []
  /-- The settings wait for the reset, or they are sent; there may be none. -/
  settings_sent :
    (settings = [] ∧ (g ∈ (sendBatch entries wire).wire.rejectedVisibility ↔
        g ∈ wire.rejectedVisibility) ∧
      ∀ e, (Batch.ofEntries entries).visibilities.get? g = some e →
        g ∈ (Sending.settings (Batch.ofEntries entries) wire).stalled ∧
          e.id ∈ (sendBatch entries wire).unsent) ∨
    ∃ e response, (Batch.ofEntries entries).visibilities.get? g = some e ∧
      settings = [⟨g, .visibility e.id e.settings, response⟩] ∧
      match response with
      | .delivered => g ∉ (sendBatch entries wire).wire.rejectedVisibility
      | .refused _ => g ∈ (sendBatch entries wire).wire.rejectedVisibility
      | .undelivered => g ∈ (Sending.settings (Batch.ofEntries entries) wire).stalled ∧
          e.id ∈ (sendBatch entries wire).unsent ∧
          (g ∈ (sendBatch entries wire).wire.rejectedVisibility ↔ g ∈ wire.rejectedVisibility)

theorem exists_namespaceRequests (hwire : wire.requests = []) :
    ∃ resets settings data, NamespaceRequests g entries wire resets settings data := by
  obtain ⟨⟨resets, hresets, hresetskind⟩, hrejected, -⟩ := requests_afterResets g entries wire
  obtain ⟨⟨data, hdata, hdatakind, hpending, hnil⟩, hrejected', hunsent⟩ :=
    requests_data g entries wire
  have hnone : wire.requestsTo g = [] := by rw [Wire.requestsTo, hwire, List.filter_nil]
  rw [hnone, List.nil_append] at hresets
  have hdatanil : (Batch.ofEntries entries).pending.get? g = none ∨
      g ∈ (settings (Batch.ofEntries entries) wire).stalled ∨
      g ∈ (sendBatch entries wire).wire.rejectedVisibility → data = [] := by
    rintro (h | h | h)
    · exact hpending h
    · exact hnil (.inl h)
    · exact hnil (.inr (hrejected'.1 h))
  rcases requests_settings g entries wire with
    ⟨hnosettings, helse⟩ | ⟨e, he, -, ⟨hstalled, hback, hsame, hrequests⟩ |
      ⟨response, hrequests, hsettled, hundelivered⟩⟩
  · refine ⟨resets, [], data, ⟨?_, hresetskind, hdatakind, hdatanil, .inl ⟨rfl, ?_, ?_⟩⟩⟩
    · rw [hdata, helse.requests, hresets, List.nil_append]
    · exact hrejected'.trans (helse.rejected.trans hrejected)
    · intro e he
      rw [hnosettings] at he
      cases he
  · refine ⟨resets, [], data, ⟨?_, hresetskind, hdatakind, hdatanil, .inl ⟨rfl, ?_, ?_⟩⟩⟩
    · rw [hdata, hrequests, hresets, List.nil_append]
    · exact hrejected'.trans (hsame.trans hrejected)
    · intro e' he'
      rw [he, Option.some.injEq] at he'
      exact ⟨hstalled, he' ▸ hunsent hback⟩
  · refine ⟨resets, _, data, ⟨?_, hresetskind, hdatakind, hdatanil, .inr ⟨e, response, he, rfl, ?_⟩⟩⟩
    · rw [hdata, hrequests, hresets, List.append_assoc]
    · cases response with
      | delivered => exact fun h => hsettled (hrejected'.1 h)
      | refused status => exact hrejected'.2 hsettled.1
      | undelivered =>
          exact ⟨hsettled.1, hunsent hsettled.2,
            hrejected'.trans ((hundelivered rfl).trans hrejected)⟩

/-- The responses to the settings of a namespace. -/
def settingsResponse (g : Namespace) : Request V → Option Response
  | ⟨group, .visibility _ _, response⟩ => if group = g then some response else none
  | _ => none

theorem filterMap_settingsResponse (w : Wire V) :
    w.requests.filterMap (settingsResponse g) =
      (w.requestsTo g).filterMap (settingsResponse g) := by
  rw [Wire.requestsTo, List.filterMap_filter]
  refine List.filterMap_congr fun request _ => ?_
  obtain ⟨group, kind, response⟩ := request
  by_cases hgroup : group = g
  · simp [hgroup]
  · cases kind <;> simp [settingsResponse, hgroup]

theorem settingsResponse_nil {requests : List (Request V)}
    (h : ∀ request ∈ requests, ∀ id settings, request.kind ≠ .visibility id settings) :
    requests.filterMap (settingsResponse g) = [] := by
  rw [List.filterMap_eq_nil_iff]
  intro request hrequest
  obtain ⟨group, kind, response⟩ := request
  cases kind with
  | reset path => rfl
  | entities type_ data => rfl
  | visibility id settings => exact absurd rfl (h _ hrequest id settings)

variable {g entries wire}

theorem NamespaceRequests.resets_settingsResponse {resets settings data : List (Request V)}
    (h : NamespaceRequests g entries wire resets settings data) :
    resets.filterMap (settingsResponse g) = [] :=
  settingsResponse_nil g fun request hrequest id settings hkind => by
    obtain ⟨path, hreset⟩ := h.resets_kind request hrequest
    rw [hreset] at hkind
    cases hkind

theorem NamespaceRequests.data_settingsResponse {resets settings data : List (Request V)}
    (h : NamespaceRequests g entries wire resets settings data) :
    data.filterMap (settingsResponse g) = [] :=
  settingsResponse_nil g fun request hrequest id settings hkind => by
    obtain ⟨type_, data', hdata⟩ := h.data_kind request hrequest
    rw [hdata] at hkind
    cases hkind

/-- The settings are the only requests with a response to settings. -/
theorem NamespaceRequests.settingsResponses {resets settings data : List (Request V)}
    (h : NamespaceRequests g entries wire resets settings data) :
    (sendBatch entries wire).wire.requests.filterMap (settingsResponse g) =
      settings.filterMap (settingsResponse g) := by
  rw [filterMap_settingsResponse, h.all, List.filterMap_append, List.filterMap_append,
    h.resets_settingsResponse, h.data_settingsResponse, List.append_nil, List.nil_append]

end Sending

/-! ### The last entry of a kind -/

namespace Batch

variable {entries : List (ProxyEntry V)}

/-- The batch keeps the last reset of a namespace. -/
theorem exists_resets (hsorted : entries.Pairwise fun e f => e.id < f.id) {e : ProxyEntry V}
    (he : e ∈ entries) (hreset : e.item.operation.resets g) :
    ∃ r, (ofEntries entries).resets.get? g = some r ∧ e.id ≤ r.id := by
  induction entries using List.reverseRecOn with
  | nil => cases he
  | append_singleton entries last ih =>
      rw [List.pairwise_append] at hsorted
      obtain ⟨hsorted, -, hbefore⟩ := hsorted
      rw [ofEntries_concat]
      by_cases hlast : last.item.operation.resets g
      · refine ⟨last, ?_, ?_⟩
        · rw [ProxyOperation.resets_iff] at hlast
          simp [add, hlast, Dict.get?_set]
        · rcases List.mem_append.1 he with he | he
          · exact le_of_lt (hbefore e he last (by simp))
          · rw [List.mem_singleton.1 he]
      · have hmem : e ∈ entries := by
          rcases List.mem_append.1 he with he | he
          · exact he
          · rw [List.mem_singleton.1 he] at hreset
            exact absurd hreset hlast
        obtain ⟨r, hr, hle⟩ := ih hsorted hmem
        refine ⟨r, ?_, hle⟩
        obtain ⟨⟨id, ⟨payload, group⟩⟩, priority, timestamp, index⟩ := last
        cases payload with
        | visibility settings => exact hr
        | entities type_ data => exact hr
        | reset =>
            have hne : g ≠ group := fun heq => hlast (by simp [ProxyOperation.resets, heq])
            simp [add, Dict.get?_set, hne, hr]

/-- The batch keeps the last settings of a namespace. -/
theorem exists_visibilities (hsorted : entries.Pairwise fun e f => e.id < f.id) {e : ProxyEntry V}
    (he : e ∈ entries) {settings : Dict String V}
    (hsettings : e.item.operation = ⟨.visibility settings, g⟩) :
    ∃ v, (ofEntries entries).visibilities.get? g = some v ∧ e.id ≤ v.id := by
  induction entries using List.reverseRecOn with
  | nil => cases he
  | append_singleton entries last ih =>
      rw [List.pairwise_append] at hsorted
      obtain ⟨hsorted, -, hbefore⟩ := hsorted
      rw [ofEntries_concat]
      by_cases hlast : ∃ settings, last.item.operation = ⟨.visibility settings, g⟩
      · obtain ⟨settings', hlast⟩ := hlast
        refine ⟨last, by simp [add, hlast, Dict.get?_set], ?_⟩
        rcases List.mem_append.1 he with he | he
        · exact le_of_lt (hbefore e he last (by simp))
        · rw [List.mem_singleton.1 he]
      · have hmem : e ∈ entries := by
          rcases List.mem_append.1 he with he | he
          · exact he
          · rw [List.mem_singleton.1 he] at hsettings
            exact absurd ⟨settings, hsettings⟩ hlast
        obtain ⟨v, hv, hle⟩ := ih hsorted hmem
        refine ⟨v, ?_, hle⟩
        obtain ⟨⟨id, ⟨payload, group⟩⟩, priority, timestamp, index⟩ := last
        cases payload with
        | reset => exact hv
        | entities type_ data => exact hv
        | visibility settings' =>
            have hne : g ≠ group := fun heq => hlast ⟨settings', by rw [heq]⟩
            simp [add, Dict.get?_set, hne, hv]

end Batch

end Service
end ContestManagement
