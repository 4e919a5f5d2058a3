import ContestManagement.Events.Publisher

/-!
# A filtered stream

A subscriber that must not get some types of event sees nothing of their messages: what stands in
its queue after a run is what stands there after the run without them.
-/

namespace ContestManagement
namespace Events

open Lib

variable {size created queue : ℕ} {dropped : Finset Text} {p t : Publisher}

/-! ## The items of the kept types -/

/-- The items of a dictionary whose keys are not dropped. -/
def keptItems {β : Type} (dropped : Finset Text) (items : List (Option Text × β)) :
    List (Option Text × β) :=
  items.filter fun item => !isDropped dropped item.1

theorem keptItems_setItem {β : Type} (event : Option Text) (value : β)
    (items : List (Option Text × β)) :
    keptItems dropped (Dict.setItem event value items) =
      if isDropped dropped event then keptItems dropped items
      else Dict.setItem event value (keptItems dropped items) := by
  unfold keptItems
  induction items with
  | nil => cases h : isDropped dropped event <;> simp [Dict.setItem, h]
  | cons item rest ih =>
      rw [Dict.setItem]
      by_cases heq : item.1 = event
      · cases h : isDropped dropped event <;> simp [Dict.setItem, heq, h]
      · rw [if_neg heq, List.filter_cons, ih, List.filter_cons]
        cases h : isDropped dropped event <;> cases hitem : isDropped dropped item.1 <;>
          simp [Dict.setItem, heq]

theorem get?_eq_of_keptItems {β : Type} {d d' : Dict (Option Text) β}
    (h : keptItems dropped d.items = keptItems dropped d'.items) {event : Option Text}
    (hkept : isDropped dropped event = false) : d.get? event = d'.get? event := by
  refine Option.ext fun value => ?_
  have hmem : (event, value) ∈ keptItems dropped d.items ↔
      (event, value) ∈ keptItems dropped d'.items := by rw [h]
  unfold keptItems at hmem
  rw [List.mem_filter, List.mem_filter, Dict.mem_items_iff, Dict.mem_items_iff] at hmem
  simpa [hkept] using hmem

namespace Publisher

theorem keptEvents_eq (p : Publisher) (dropped : Finset Text) :
    p.keptEvents dropped = (keptItems dropped p.cacheByEvent.items).map Prod.fst := by
  unfold keptEvents Dict.keys keptItems
  rw [List.filter_map]
  rfl

theorem keptCaches_eq (p : Publisher) (dropped : Finset Text) :
    (p.keptEvents dropped).map (fun event => (p.cacheByEvent.get? event).getD []) =
      (keptItems dropped p.cacheByEvent.items).map Prod.snd := by
  rw [keptEvents_eq, List.map_map]
  refine List.map_congr_left fun item hitem => ?_
  have hget : p.cacheByEvent.get? item.1 = some item.2 :=
    Dict.mem_items_iff.1 (List.mem_of_mem_filter hitem)
  rw [Function.comp_apply, hget, Option.getD_some]

theorem isDropped_of_mem_keptEvents {event : Option Text} (h : event ∈ p.keptEvents dropped) :
    isDropped dropped event = false := by
  simpa using (List.mem_filter.1 h).2

end Publisher

/-! ## Two publishers that a subscriber cannot tell apart -/

/-- The publishers have the same of the types that are not dropped, and the queue with this filter
has the same items. -/
structure SameKept (dropped : Finset Text) (queue : ℕ) (p t : Publisher) : Prop where
  size : p.size = t.size
  created : p.created = t.created
  caches : keptItems dropped p.cacheByEvent.items = keptItems dropped t.cacheByEvent.items
  evicted : ∀ event, isDropped dropped event = false → p.evicted.get? event = t.evicted.get? event
  subQueue : p.subQueues queue = t.subQueues queue
  filter : ∀ sub ∈ p.subQueues queue, sub.dropped = dropped

theorem SameKept.refl (h : p.subQueues queue = none) : SameKept dropped queue p p where
  size := rfl
  created := rfl
  caches := rfl
  evicted _ _ := rfl
  subQueue := rfl
  filter := by simp [h]

/-- A new subscriber with the filter is sent the same again. -/
theorem SameKept.replay (h : SameKept dropped queue p t) (hne : dropped.Nonempty)
    (lastEventId : Option Text) : p.replay lastEventId dropped = t.replay lastEventId dropped := by
  have hevents : p.keptEvents dropped = t.keptEvents dropped := by
    rw [Publisher.keptEvents_eq, Publisher.keptEvents_eq, h.caches]
  have hsince : p.completeSince dropped = t.completeSince dropped := by
    unfold Publisher.completeSince
    rw [h.created, hevents]
    congr 1
    refine List.filterMap_congr fun event hevent => ?_
    exact h.evicted event (Publisher.isDropped_of_mem_keptEvents hevent)
  unfold Publisher.replay
  cases lastEventId.bind parseId with
  | none => rfl
  | some lastEventKey =>
      dsimp only
      rw [if_pos hne, if_pos hne]
      unfold Publisher.replaySome
      rw [hsince, Publisher.keptCaches_eq, Publisher.keptCaches_eq, h.caches]

/-! ## Steps and runs -/

namespace Publisher

/-- What a label does that the subscriber of a queue may see. -/
def Label.visible (dropped : Finset Text) (queue : ℕ) : Label → Bool
  | .put _ event _ => !isDropped dropped event
  | .getSubscriber other _ _ => other = queue
  | .get other => other = queue
  | .vanish other => other = queue

/-- The labels that come to the queue give it this filter. -/
def Label.Filters (dropped : Finset Text) (queue : ℕ) : Label → Prop
  | .getSubscriber other _ filter => other = queue → filter = dropped
  | _ => True

end Publisher

open Publisher

/-- A message of a dropped type changes nothing of the kept ones. -/
theorem SameKept.add_dropped (h : SameKept dropped queue p t) {msg : Message}
    (hdropped : isDropped dropped msg.event = true) : SameKept dropped queue (p.add msg) t := by
  refine ⟨h.size, h.created, ?_, ?_, ?_, ?_⟩
  · exact (keptItems_setItem _ _ _).trans ((if_pos hdropped).trans h.caches)
  · intro other hother
    have hne : other ≠ msg.event := fun heq => by simp [heq, hdropped] at hother
    rw [← h.evicted other hother]
    unfold Publisher.add
    dsimp only
    split
    · rw [Dict.get?_set, if_neg hne]
    · rfl
  · rw [← h.subQueue]
    unfold Publisher.add
    dsimp only
    cases hsub : p.subQueues queue with
    | none => rfl
    | some sub => rw [Option.map_some, h.filter sub hsub, if_pos hdropped]
  · intro sub hsub
    obtain ⟨old, hold, hsub⟩ := Option.mem_map.1 hsub
    rw [← hsub, ← h.filter old hold]
    split
    · rfl
    · rfl

/-- A message of another type comes into both publishers. -/
theorem SameKept.add (h : SameKept dropped queue p t) {msg : Message}
    (hkept : isDropped dropped msg.event = false) :
    SameKept dropped queue (p.add msg) (t.add msg) := by
  have hcache := get?_eq_of_keptItems h.caches hkept
  unfold Publisher.add
  rw [hcache, h.size]
  refine ⟨rfl, h.created, ?_, ?_, ?_, ?_⟩
  · refine (keptItems_setItem _ _ _).trans (Eq.trans ?_ (keptItems_setItem _ _ _).symm)
    rw [hkept, h.caches]
  · intro other hother
    dsimp only
    split
    · rw [Dict.get?_set, Dict.get?_set, h.evicted other hother]
    · exact h.evicted other hother
  · dsimp only
    rw [h.subQueue]
  · intro sub hsub
    obtain ⟨old, hold, hsub⟩ := Option.mem_map.1 hsub
    rw [← hsub, ← h.filter old hold]
    split
    · rfl
    · rfl

theorem message_event {key : ℕ} {event data : Option Text} {msg : Message}
    (h : (Label.put key event data).message = some msg) : msg.event = event := by
  unfold Label.message at h
  cases htext : formatEvent (hexId key) event data with
  | error e => simp [htext] at h
  | ok text =>
      simp only [htext, Option.some.injEq] at h
      rw [← h]

theorem SameKept.step_invisible (h : SameKept dropped queue p t) {label : Label}
    (hlabel : label.visible dropped queue = false) : SameKept dropped queue (p.step label) t := by
  cases label with
  | put key event data =>
      have hdropped : isDropped dropped event = true := by simpa [Label.visible] using hlabel
      rw [step_put]
      cases hmsg : (Label.put key event data).message with
      | none => exact h
      | some msg => exact h.add_dropped (by rw [message_event hmsg, hdropped])
  | getSubscriber other lastEventId filter =>
      have hne : queue ≠ other := fun heq => by simp [Label.visible, heq] at hlabel
      refine ⟨h.size, h.created, h.caches, h.evicted, ?_, ?_⟩
      · exact (Function.update_of_ne hne _ _).trans h.subQueue
      · intro sub hsub
        exact h.filter sub ((Function.update_of_ne hne _ _).symm.trans hsub)
  | get other =>
      have hne : queue ≠ other := fun heq => by simp [Label.visible, heq] at hlabel
      refine ⟨h.size, h.created, h.caches, h.evicted, ?_, ?_⟩
      · exact (Function.update_of_ne hne _ _).trans h.subQueue
      · intro sub hsub
        exact h.filter sub ((Function.update_of_ne hne _ _).symm.trans hsub)
  | vanish other =>
      have hne : queue ≠ other := fun heq => by simp [Label.visible, heq] at hlabel
      refine ⟨h.size, h.created, h.caches, h.evicted, ?_, ?_⟩
      · exact (Function.update_of_ne hne _ _).trans h.subQueue
      · intro sub hsub
        exact h.filter sub ((Function.update_of_ne hne _ _).symm.trans hsub)

theorem SameKept.step_visible (h : SameKept dropped queue p t) (hne : dropped.Nonempty)
    {label : Label} (hlabel : label.visible dropped queue = true)
    (hfilters : label.Filters dropped queue) :
    SameKept dropped queue (p.step label) (t.step label) := by
  cases label with
  | put key event data =>
      have hkept : isDropped dropped event = false := by simpa [Label.visible] using hlabel
      rw [step_put, step_put]
      cases hmsg : (Label.put key event data).message with
      | none => exact h
      | some msg => exact h.add (by rw [message_event hmsg, hkept])
  | getSubscriber other lastEventId filter =>
      have heq : other = queue := of_decide_eq_true hlabel
      have hfilter : filter = dropped := hfilters heq
      refine ⟨h.size, h.created, h.caches, h.evicted, ?_, ?_⟩
      · rw [heq, hfilter, Publisher.step, Publisher.step, getSubscriber, getSubscriber]
        dsimp only
        rw [Function.update_self, Function.update_self, h.replay hne]
      · intro sub hsub
        rw [heq, hfilter, Publisher.step, getSubscriber] at hsub
        dsimp only at hsub
        rw [Function.update_self, Option.mem_some_iff] at hsub
        rw [← hsub]
  | get other =>
      have heq : other = queue := of_decide_eq_true hlabel
      refine ⟨h.size, h.created, h.caches, h.evicted, ?_, ?_⟩
      · rw [heq, Publisher.step, Publisher.step]
        dsimp only
        rw [Function.update_self, Function.update_self, h.subQueue]
      · intro sub hsub
        rw [heq, Publisher.step] at hsub
        dsimp only at hsub
        rw [Function.update_self] at hsub
        obtain ⟨old, hold, hsub⟩ := Option.mem_map.1 hsub
        rw [← hsub]
        exact h.filter old hold
  | vanish other =>
      have heq : other = queue := of_decide_eq_true hlabel
      refine ⟨h.size, h.created, h.caches, h.evicted, ?_, ?_⟩
      · rw [heq, Publisher.step, Publisher.step]
        dsimp only
        rw [Function.update_self, Function.update_self]
      · intro sub hsub
        rw [heq, Publisher.step] at hsub
        dsimp only at hsub
        rw [Function.update_self] at hsub
        cases hsub

/-- The subscriber sees of a run what he sees of its visible labels. -/
theorem SameKept.run (h : SameKept dropped queue p t) (hne : dropped.Nonempty)
    {labels : List Label} (hfilters : ∀ label ∈ labels, label.Filters dropped queue) :
    SameKept dropped queue (p.run labels) (t.run (labels.filter (·.visible dropped queue))) := by
  induction labels generalizing p t with
  | nil => exact h
  | cons label labels ih =>
      have hrest : ∀ other ∈ labels, other.Filters dropped queue := fun other hother =>
        hfilters other (List.mem_cons_of_mem label hother)
      cases hlabel : label.visible dropped queue with
      | false =>
          rw [List.filter_cons_of_neg (by simp [hlabel])]
          exact ih (h.step_invisible hlabel) hrest
      | true =>
          rw [List.filter_cons_of_pos hlabel]
          exact ih (h.step_visible hne hlabel (hfilters label List.mem_cons_self)) hrest

/-- The queue of a subscriber with a filter is the same after two runs that are the same without
the messages of the dropped types (and without the other subscribers). -/
theorem filtered_stream_independent (size created : ℕ) (dropped : Finset Text)
    (hne : dropped.Nonempty) (queue : ℕ) (labels labels' : List Label)
    (hfilters : ∀ label ∈ labels, label.Filters dropped queue)
    (hfilters' : ∀ label ∈ labels', label.Filters dropped queue)
    (hsame : labels.filter (·.visible dropped queue) = labels'.filter (·.visible dropped queue)) :
    ((Publisher.new size created).run labels).subQueues queue =
      ((Publisher.new size created).run labels').subQueues queue := by
  have hnew : SameKept dropped queue (Publisher.new size created) (Publisher.new size created) :=
    SameKept.refl rfl
  have hrun := hnew.run hne hfilters
  have hrun' := hnew.run hne hfilters'
  rw [hrun.subQueue, hrun'.subQueue, hsame]

/-- The types of event that a frozen stream must not get. -/
def frozenFilter : Finset Text := {"score".toList}

def userCreated : Label := .put 6 (some "user".toList) (some "create u".toList)

def frozenStream : Label := .getSubscriber 0 (some "5".toList) frozenFilter

def scoreChanged : Label := .put 7 (some "score".toList) (some "u t 1.0".toList)

theorem frozen_stream_independent :
    ((Publisher.new 250 5).run [scoreChanged, userCreated, frozenStream, scoreChanged]).subQueues 0 =
      ((Publisher.new 250 5).run [userCreated, frozenStream]).subQueues 0 := by
  refine filtered_stream_independent 250 5 frozenFilter ⟨_, Finset.mem_singleton_self _⟩ 0 _ _ ?_ ?_ ?_
  · simp [scoreChanged, userCreated, frozenStream, Label.Filters]
  · simp [userCreated, frozenStream, Label.Filters]
  · rfl

end Events
end ContestManagement
