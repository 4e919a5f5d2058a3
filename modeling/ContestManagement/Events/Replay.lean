import ContestManagement.Events.Publisher
import ContestManagement.Lib.Maxima
import ContestManagement.Lib.MergeOrder

/-!
# What a subscriber is sent again

A cache holds the newest messages, and what it has lost is not newer than what it remembers of it.
So a subscriber whose id is not too old is sent every message with a later key; of those that have
the same key he is sent none, and messages of different types with one key are sent in the order of
the caches.
-/

namespace ContestManagement
namespace Events

open Lib

namespace Publisher

variable {p : Publisher} {before published : List Message} {msg : Message}
  {dropped : Finset Text} {key : ℕ} {event : Option Text}

/-- The messages published in a run. -/
def publishedBy (labels : List Label) : List Message :=
  labels.filterMap Label.message

/-- The messages of one type. -/
def ofType (event : Option Text) (published : List Message) : List Message :=
  published.filter fun msg => msg.event = event

/-- The place of the first message of a type. -/
def firstOf (published : List Message) (event : Option Text) : ℕ :=
  (published.map Message.event).idxOf event

/-- The caches of a publisher that has published some messages: each is the end of what has been
published, and the newest message that has left the cache of a type is remembered. -/
structure Caches (published : List Message) (p : Publisher) : Prop where
  cache : ∃ old, published = old ++ p.cache
  types : p.cacheByEvent.keys.Pairwise fun a b => firstOf published a < firstOf published b
  mem_types : ∀ event, event ∈ p.cacheByEvent.keys ↔ ∃ msg ∈ published, msg.event = event
  length_le : ∀ event, ((p.cacheByEvent.get? event).getD []).length ≤ p.size
  caches : ∀ event, ∃ old,
    ofType event published = old ++ (p.cacheByEvent.get? event).getD [] ∧
      p.evicted.get? event = old.getLast?.map Message.key

theorem caches_new (size created : ℕ) : Caches [] (new size created) where
  cache := ⟨[], rfl⟩
  types := List.Pairwise.nil
  mem_types event := by simp [new, Dict.keys, Dict.empty]
  length_le event := Nat.zero_le _
  caches event := ⟨[], rfl, rfl⟩

/-- A full deque loses its oldest item. -/
theorem append_spec {α : Type} {size : ℕ} {deque : List α} (x : α) (h : deque.length ≤ size) :
    (append size deque x).length ≤ size ∧
      ∃ out, deque ++ [x] = out ++ append size deque x ∧
        (deque.length = size → out = [deque.headD x]) ∧ (deque.length ≠ size → out = []) := by
  unfold append List.rtake
  refine ⟨by simp; omega, (deque ++ [x]).take ((deque ++ [x]).length - size),
    (List.take_append_drop _ _).symm, ?_, ?_⟩
  · intro hfull
    have hone : (deque ++ [x]).length - size = 1 := by
      rw [List.length_append, hfull]
      simp
    rw [hone]
    cases deque with
    | nil => rfl
    | cons first rest => rfl
  · intro hroom
    have hzero : (deque ++ [x]).length - size = 0 := by
      rw [List.length_append, List.length_singleton]
      omega
    rw [hzero, List.take_zero]

theorem firstOf_append_of_mem (h : ∃ old ∈ published, old.event = event) :
    firstOf (published ++ [msg]) event = firstOf published event := by
  unfold firstOf
  rw [List.map_append, List.idxOf_append_of_mem]
  exact List.mem_map.2 h

theorem firstOf_lt_length (h : ∃ old ∈ published, old.event = event) :
    firstOf published event < published.length := by
  unfold firstOf
  rw [← List.length_map (f := Message.event)]
  exact List.idxOf_lt_length_of_mem (List.mem_map.2 h)

theorem length_le_firstOf (h : ¬∃ old ∈ published, old.event = event) :
    published.length ≤ firstOf (published ++ [msg]) event := by
  unfold firstOf
  rw [List.map_append, List.idxOf_append_of_notMem fun hmem => h (List.mem_map.1 hmem),
    List.length_map]
  exact Nat.le_add_right _ _

theorem Caches.types_add (h : Caches published p) (msg : Message) :
    (p.add msg).cacheByEvent.keys.Pairwise
      fun a b => firstOf (published ++ [msg]) a < firstOf (published ++ [msg]) b := by
  have hold : p.cacheByEvent.keys.Pairwise
      fun a b => firstOf (published ++ [msg]) a < firstOf (published ++ [msg]) b := by
    refine h.types.imp_of_mem fun {a b} ha hb hlt => ?_
    rw [firstOf_append_of_mem ((h.mem_types a).1 ha), firstOf_append_of_mem ((h.mem_types b).1 hb)]
    exact hlt
  cases hget : p.cacheByEvent.get? msg.event with
  | some cache =>
      have hkeys : (p.add msg).cacheByEvent.keys = p.cacheByEvent.keys := Dict.keys_set_of_get? hget
      rw [hkeys]
      exact hold
  | none =>
      have hkeys : (p.add msg).cacheByEvent.keys = p.cacheByEvent.keys ++ [msg.event] :=
        Dict.keys_set_of_none hget
      rw [hkeys]
      refine List.pairwise_append.2 ⟨hold, List.pairwise_singleton _ _, fun a ha b hb => ?_⟩
      have hnew : ¬∃ old ∈ published, old.event = msg.event := by
        rw [← h.mem_types, Dict.mem_keys_iff]
        simp [hget]
      rw [List.mem_singleton.1 hb, firstOf_append_of_mem ((h.mem_types a).1 ha)]
      exact (firstOf_lt_length ((h.mem_types a).1 ha)).trans_le (length_le_firstOf hnew)

theorem Caches.mem_types_add (h : Caches published p) (msg : Message) (event : Option Text) :
    event ∈ (p.add msg).cacheByEvent.keys ↔ ∃ m ∈ published ++ [msg], m.event = event := by
  have hkeys : event ∈ (p.add msg).cacheByEvent.keys ↔ event = msg.event ∨ event ∈ p.cacheByEvent.keys :=
    Dict.mem_keys_setItem
  rw [hkeys, h.mem_types]
  simp only [List.mem_append, List.mem_singleton]
  constructor
  · rintro (heq | ⟨m, hm, heq⟩)
    · exact ⟨msg, Or.inr rfl, heq.symm⟩
    · exact ⟨m, Or.inl hm, heq⟩
  · rintro ⟨m, hm | hm, heq⟩
    · exact Or.inr ⟨m, hm, heq⟩
    · rw [← heq, hm]
      exact Or.inl rfl

theorem ofType_append (event : Option Text) (published : List Message) (msg : Message) :
    ofType event (published ++ [msg]) =
      ofType event published ++ if msg.event = event then [msg] else [] := by
  unfold ofType
  rw [List.filter_append]
  by_cases h : msg.event = event
  · simp [h]
  · simp [h]

/-- A new message keeps the caches. -/
theorem Caches.add (h : Caches published p) (msg : Message) :
    Caches (published ++ [msg]) (p.add msg) := by
  refine ⟨?_, h.types_add msg, h.mem_types_add msg, fun event => ?_, fun event => ?_⟩
  · obtain ⟨old, hold⟩ := h.cache
    refine ⟨old ++ (p.cache ++ [msg]).take ((p.cache ++ [msg]).length - p.size), ?_⟩
    unfold Publisher.add append List.rtake
    dsimp only
    rw [List.append_assoc, List.take_append_drop, ← List.append_assoc, ← hold]
  · unfold Publisher.add
    dsimp only
    rw [Dict.get?_set]
    by_cases heq : event = msg.event
    · rw [if_pos heq, Option.getD_some]
      exact (append_spec msg (h.length_le msg.event)).1
    · rw [if_neg heq]
      exact h.length_le event
  · obtain ⟨old, hsplit, hevicted⟩ := h.caches event
    rw [ofType_append]
    unfold Publisher.add
    dsimp only
    rw [Dict.get?_set]
    by_cases heq : event = msg.event
    · subst heq
      obtain ⟨-, out, hout, hfull, hroom⟩ := append_spec msg (h.length_le msg.event)
      rw [if_pos rfl, if_pos rfl, Option.getD_some]
      refine ⟨old ++ out, by rw [hsplit, List.append_assoc, hout, List.append_assoc], ?_⟩
      by_cases hlength : ((p.cacheByEvent.get? msg.event).getD []).length = p.size
      · rw [if_pos hlength, Dict.get?_set, if_pos rfl, hfull hlength, List.getLast?_concat,
          Option.map_some]
        cases (p.cacheByEvent.get? msg.event).getD [] with
        | nil => rfl
        | cons first rest => rfl
      · rw [if_neg hlength, hroom hlength, List.append_nil]
        exact hevicted
    · rw [if_neg heq, if_neg (Ne.symm heq), List.append_nil]
      refine ⟨old, hsplit, ?_⟩
      split
      · rw [Dict.get?_set, if_neg heq]
        exact hevicted
      · exact hevicted

/-- The subscribers keep nothing from the caches. -/
theorem Caches.step (h : Caches published p) (label : Label) :
    Caches (published ++ label.message.toList) (p.step label) := by
  cases label with
  | put key event data =>
      rw [step_put]
      cases (Label.put key event data).message with
      | none =>
          rw [Option.toList_none, List.append_nil]
          exact h
      | some msg => exact h.add msg
  | getSubscriber queue lastEventId dropped =>
      show Caches (published ++ []) _
      rw [List.append_nil]
      exact ⟨h.cache, h.types, h.mem_types, h.length_le, h.caches⟩
  | get queue =>
      show Caches (published ++ []) _
      rw [List.append_nil]
      exact ⟨h.cache, h.types, h.mem_types, h.length_le, h.caches⟩
  | vanish queue =>
      show Caches (published ++ []) _
      rw [List.append_nil]
      exact ⟨h.cache, h.types, h.mem_types, h.length_le, h.caches⟩

theorem Caches.run (h : Caches published p) (labels : List Label) :
    Caches (published ++ publishedBy labels) (p.run labels) := by
  induction labels generalizing p published with
  | nil =>
      rw [publishedBy, List.filterMap_nil, List.append_nil]
      exact h
  | cons label labels ih =>
      have hcons : publishedBy (label :: labels) = label.message.toList ++ publishedBy labels := by
        unfold publishedBy
        rw [List.filterMap_cons]
        cases label.message with
        | none => rfl
        | some msg => rfl
      rw [hcons, ← List.append_assoc]
      exact ih (h.step label)

theorem caches_run (size created : ℕ) (labels : List Label) :
    Caches (publishedBy labels) ((new size created).run labels) := by
  simpa using (caches_new size created).run labels

/-! ## The newer messages -/

/-- The clock never went back while the messages were published. -/
def Clocked (published : List Message) : Prop :=
  published.Pairwise fun a b => a.key ≤ b.key

/-- The messages published after the one with the key. -/
def newer (key : ℕ) (published : List Message) : List Message :=
  published.filter (key < ·.key)

/-- Messages that are not newer do not count. -/
theorem newer_append {l : List Message} (h : ∀ m ∈ l, m.key ≤ key) (l' : List Message) :
    newer key (l ++ l') = newer key l' := by
  have hnil : newer key l = [] := by
    unfold newer
    rw [List.filter_eq_nil_iff]
    intro m hm
    simpa using h m hm
  have happend : newer key (l ++ l') = newer key l ++ newer key l' := List.filter_append ..
  rw [happend, hnil, List.nil_append]

/-- A cache that is not outdated has all newer messages. -/
theorem Caches.newer_cache (h : Caches published p) (hclock : Clocked published)
    (hfresh : p.outdated key = false) : newer key p.cache = newer key published := by
  obtain ⟨old, hold⟩ := h.cache
  unfold outdated at hfresh
  cases hcache : p.cache with
  | nil => simp [hcache] at hfresh
  | cons oldest rest =>
      rw [hcache] at hold hfresh
      rw [hold] at hclock ⊢
      have hle : oldest.key ≤ key := by simpa using hfresh
      refine (newer_append (fun m hm => ?_) _).symm
      exact ((List.pairwise_append.1 hclock).2.2 m hm oldest List.mem_cons_self).trans hle

/-- So has the cache of a type, if no newer message has left it. -/
theorem Caches.newer_ofType (h : Caches published p) (hclock : Clocked published)
    (hevicted : ∀ k ∈ p.evicted.get? event, k ≤ key) :
    newer key ((p.cacheByEvent.get? event).getD []) = newer key (ofType event published) := by
  obtain ⟨old, hsplit, hlast⟩ := h.caches event
  rw [hlast] at hevicted
  have hclockType : Clocked (ofType event published) := hclock.filter _
  rw [hsplit] at hclockType ⊢
  refine (newer_append (fun m hm => ?_) _).symm
  rcases List.eq_nil_or_concat old with hnil | ⟨earlier, last, hconcat⟩
  · rw [hnil] at hm
    cases hm
  · rw [List.concat_eq_append] at hconcat
    subst hconcat
    have hle : last.key ≤ key := by
      refine hevicted _ ?_
      rw [List.getLast?_concat, Option.map_some, Option.mem_some_iff]
    have hordered := (List.pairwise_append.1 (List.pairwise_append.1 hclockType).1).2.2
    rcases List.mem_append.1 hm with hearlier | hlast
    · exact (hordered m hearlier last (List.mem_singleton_self last)).trans hle
    · rw [List.mem_singleton.1 hlast]
      exact hle

theorem evicted_le_of_completeSince_le (h : p.completeSince dropped ≤ key)
    (hevent : event ∈ p.keptEvents dropped) : ∀ k ∈ p.evicted.get? event, k ≤ key := by
  intro k hk
  exact ((foldl_max_spec _ _).2.1 k (List.mem_filterMap.2 ⟨event, hevent, hk⟩)).trans h

/-! ## The merge of the caches of the kept types -/

/-- Two messages with one key are in the order in which their types were first published. -/
def InTypeOrder (published messages : List Message) : Prop :=
  messages.Pairwise fun a b =>
    a.key = b.key → firstOf published a.event ≤ firstOf published b.event

/-- The messages of the types that are not dropped. -/
def keptOf (dropped : Finset Text) (messages : List Message) : List Message :=
  messages.filter fun msg => !isDropped dropped msg.event

/-- A message under the index of its cache. -/
def tag (types : List (Option Text)) (msg : Message) : ℕ × Message :=
  (types.idxOf msg.event, msg)

/-- The caches of the kept types, under their indexes. -/
def taggedCaches (p : Publisher) (dropped : Finset Text) : List (ℕ × List Message) :=
  ((p.keptEvents dropped).map fun event => (p.cacheByEvent.get? event).getD []).zipIdx.map Prod.swap

/-- The merge, with the indexes. -/
def mergedCaches (p : Publisher) (dropped : Finset Text) : List (ℕ × Message) :=
  Source.mergeAll mergeRank (Source.queueOf mergeRank (p.taggedCaches dropped))

theorem mergeRank_inj (m : Message) (i : ℕ) (m' : Message) (i' : ℕ)
    (h : mergeRank m i = mergeRank m' i') : i = i' :=
  congrArg (fun r => (ofLex r).2) h

theorem mem_taggedCaches {i : ℕ} {cache : List Message} :
    (i, cache) ∈ p.taggedCaches dropped ↔
      ∃ event, (p.keptEvents dropped)[i]? = some event ∧
        cache = (p.cacheByEvent.get? event).getD [] := by
  unfold taggedCaches
  rw [List.mem_map]
  constructor
  · rintro ⟨⟨c, j⟩, hmem, heq⟩
    rw [Prod.swap_prod_mk, Prod.mk.injEq] at heq
    rw [List.mem_zipIdx_iff_getElem?, List.getElem?_map, Option.map_eq_some_iff] at hmem
    obtain ⟨event, hevent, hcache⟩ := hmem
    rw [heq.1] at hevent
    exact ⟨event, hevent, heq.2.symm.trans hcache.symm⟩
  · rintro ⟨event, hevent, hcache⟩
    refine ⟨(cache, i), ?_, rfl⟩
    rw [List.mem_zipIdx_iff_getElem?, List.getElem?_map, hevent, hcache]
    rfl

theorem nodup_taggedCaches (p : Publisher) (dropped : Finset Text) :
    ((p.taggedCaches dropped).map Prod.fst).Nodup := by
  unfold taggedCaches
  rw [List.map_map]
  have hcomp : (Prod.fst ∘ Prod.swap : List Message × ℕ → ℕ) = Prod.snd := rfl
  rw [hcomp, List.zipIdx_map_snd]
  exact List.nodup_range'

theorem nodup_keptEvents (p : Publisher) (dropped : Finset Text) :
    (p.keptEvents dropped).Nodup :=
  p.cacheByEvent.distinct.filter _

/-- The messages in the cache of a type have this type. -/
theorem Caches.event_of_mem (h : Caches published p)
    (hmem : msg ∈ (p.cacheByEvent.get? event).getD []) : msg.event = event := by
  obtain ⟨old, hsplit, -⟩ := h.caches event
  have htype : msg ∈ ofType event published := by
    rw [hsplit]
    exact List.mem_append_right old hmem
  exact of_decide_eq_true (List.mem_filter.1 htype).2

/-- The index that comes with a message is that of its type. -/
theorem Caches.tag_of_mem (h : Caches published p) {entry : ℕ × Message}
    (hentry : entry ∈ p.mergedCaches dropped) :
    entry = tag (p.keptEvents dropped) entry.2 := by
  have hmem := ((Source.mergeAll_perm _).trans (Source.allEntries_queueOf_perm _)).mem_iff.1 hentry
  obtain ⟨⟨i, cache⟩, hcache, hin⟩ := List.mem_flatMap.1 hmem
  obtain ⟨m, hm, rfl⟩ := List.mem_map.1 hin
  obtain ⟨event, hevent, hcacheEq⟩ := mem_taggedCaches.1 hcache
  rw [hcacheEq] at hm
  obtain ⟨hi, hget⟩ := List.getElem?_eq_some_iff.1 hevent
  unfold tag
  dsimp only
  rw [h.event_of_mem hm, ← hget, (p.nodup_keptEvents dropped).idxOf_getElem i hi]

theorem Caches.mem_keptEvents (h : Caches published p) (hmsg : msg ∈ published)
    (hkept : isDropped dropped msg.event = false) : msg.event ∈ p.keptEvents dropped :=
  List.mem_filter.2 ⟨(h.mem_types _).2 ⟨msg, hmsg, rfl⟩, by rw [hkept]; rfl⟩

/-- The newer messages of a type are those under its index. -/
theorem Caches.newer_ofType_eq (h : Caches published p) {i : ℕ}
    (hevent : (p.keptEvents dropped)[i]? = some event) :
    newer key (ofType event published) =
      (newer key (keptOf dropped published)).filter
        fun msg => (p.keptEvents dropped).idxOf msg.event = i := by
  obtain ⟨hi, hget⟩ := List.getElem?_eq_some_iff.1 hevent
  have hkept : isDropped dropped event = false := by
    simpa using (List.mem_filter.1 (List.mem_of_getElem? hevent)).2
  unfold newer ofType keptOf
  rw [List.filter_filter, List.filter_filter, List.filter_filter]
  refine List.filter_congr fun m hm => ?_
  by_cases htype : m.event = event
  · have hindex : (p.keptEvents dropped).idxOf m.event = i := by
      rw [htype, ← hget, (p.nodup_keptEvents dropped).idxOf_getElem i hi]
    simp [htype, hkept, htype ▸ hindex]
  · cases hdropped : isDropped dropped m.event with
    | true => simp [htype]
    | false =>
        have hindex : (p.keptEvents dropped).idxOf m.event ≠ i := by
          intro heq
          have hmem := h.mem_keptEvents hm hdropped
          have hthere := List.getElem_idxOf (List.idxOf_lt_length_of_mem hmem)
          simp only [heq] at hthere
          exact htype (hthere.symm.trans hget)
        simp [htype, hindex]

/-- The merged messages under the index of a type are the newer ones of this type. -/
theorem Caches.under_merged (h : Caches published p) (hclock : Clocked published)
    (hsince : p.completeSince dropped ≤ key) (i : ℕ) :
    Source.under i ((p.mergedCaches dropped).filter fun entry => key < entry.2.key) =
      Source.under i ((newer key (keptOf dropped published)).map (tag (p.keptEvents dropped))) := by
  have hmerged : Source.under i (p.mergedCaches dropped) =
      Source.under i (Source.tagged (p.taggedCaches dropped)) :=
    Source.under_mergeAll_queueOf (p.nodup_taggedCaches dropped) i
  have hleft : Source.under i ((p.mergedCaches dropped).filter fun entry => key < entry.2.key) =
      (Source.under i (Source.tagged (p.taggedCaches dropped))).filter
        fun entry => key < entry.2.key := by
    rw [← hmerged]
    unfold Source.under
    rw [List.filter_comm]
  have hright : Source.under i
      ((newer key (keptOf dropped published)).map (tag (p.keptEvents dropped))) =
      ((newer key (keptOf dropped published)).filter
        fun msg => (p.keptEvents dropped).idxOf msg.event = i).map fun m => (i, m) := by
    unfold Source.under
    rw [List.filter_map]
    refine List.map_congr_left fun m hm => ?_
    rw [← of_decide_eq_true (List.mem_filter.1 hm).2]
    rfl
  rw [hleft, hright]
  cases hevent : (p.keptEvents dropped)[i]? with
  | some event =>
      have hmem : (i, (p.cacheByEvent.get? event).getD []) ∈ p.taggedCaches dropped :=
        mem_taggedCaches.2 ⟨event, hevent, rfl⟩
      have hevicted := evicted_le_of_completeSince_le hsince (List.mem_of_getElem? hevent)
      rw [Source.under_tagged (p.nodup_taggedCaches dropped) hmem, List.filter_map,
        ← h.newer_ofType_eq hevent, ← h.newer_ofType hclock hevicted]
      rfl
  | none =>
      have hnot : i ∉ (p.taggedCaches dropped).map Prod.fst := by
        intro hi
        obtain ⟨⟨j, cache⟩, hmem, heq⟩ := List.mem_map.1 hi
        obtain ⟨event, hsome, -⟩ := mem_taggedCaches.1 hmem
        rw [show j = i from heq, hevent] at hsome
        cases hsome
      rw [Source.under_tagged_eq_nil hnot, List.filter_nil, eq_comm, List.map_eq_nil_iff,
        List.filter_eq_nil_iff]
      intro m hm heq
      have hkeptMem := List.mem_of_mem_filter hm
      have hdropped : isDropped dropped m.event = false := by
        simpa using (List.mem_filter.1 hkeptMem).2
      have hlt := List.idxOf_lt_length_of_mem
        (h.mem_keptEvents (List.mem_of_mem_filter hkeptMem) hdropped)
      rw [of_decide_eq_true heq] at hlt
      exact absurd hlt (not_lt.2 (List.getElem?_eq_none_iff.1 hevent))

/-- The caches stand in the order in which their types were first published. -/
theorem Caches.idxOf_le_iff (h : Caches published p) {other : Option Text}
    (hevent : event ∈ p.keptEvents dropped) (hother : other ∈ p.keptEvents dropped) :
    (p.keptEvents dropped).idxOf event ≤ (p.keptEvents dropped).idxOf other ↔
      firstOf published event ≤ firstOf published other := by
  have hordered : (p.keptEvents dropped).Pairwise
      fun a b => firstOf published a < firstOf published b := h.types.filter _
  rw [List.pairwise_iff_getElem] at hordered
  have hi := List.idxOf_lt_length_of_mem hevent
  have hj := List.idxOf_lt_length_of_mem hother
  have hgeti := List.getElem_idxOf hi
  have hgetj := List.getElem_idxOf hj
  rcases lt_trichotomy ((p.keptEvents dropped).idxOf event) ((p.keptEvents dropped).idxOf other) with
    hlt | heq | hgt
  · have hfirst := hordered _ _ hi hj hlt
    rw [hgeti, hgetj] at hfirst
    omega
  · have hsame : event = other := by
      rw [← hgeti, ← hgetj]
      simp only [heq]
    rw [hsame]
    simp
  · have hfirst := hordered _ _ hj hi hgt
    rw [hgeti, hgetj] at hfirst
    omega

theorem mergeRank_le {m m' : Message} {i i' : ℕ} (h : m.key ≤ m'.key) :
    mergeRank m i ≤ mergeRank m' i' ↔ (m.key = m'.key → i ≤ i') := by
  unfold mergeRank
  rw [Prod.Lex.toLex_le_toLex]
  dsimp only
  omega

/-- The merge goes by the keys, and by the indexes for one key. -/
theorem Caches.ranked_merged (h : Caches published p) (hclock : Clocked published) :
    Source.Ranked mergeRank (p.mergedCaches dropped) := by
  refine Source.mergeAll_queueOf_ranked fun item hitem => ?_
  obtain ⟨i, cache⟩ := item
  obtain ⟨event, -, hcache⟩ := mem_taggedCaches.1 hitem
  obtain ⟨old, hsplit, -⟩ := h.caches event
  have hclockType : Clocked (ofType event published) := hclock.filter _
  rw [hsplit, ← hcache] at hclockType
  unfold Source.Ranked
  rw [List.pairwise_map]
  refine (List.pairwise_append.1 hclockType).2.1.imp fun hle => ?_
  exact (mergeRank_le hle).2 fun _ => le_rfl

theorem Caches.ranked_tag_iff (h : Caches published p) (hclock : Clocked published)
    {messages : List Message} (hsub : messages.Sublist (keptOf dropped published)) :
    Source.Ranked mergeRank (messages.map (tag (p.keptEvents dropped))) ↔
      InTypeOrder published messages := by
  have hclocked : Clocked messages := (hclock.filter _).sublist hsub
  have hevent : ∀ m ∈ messages, m.event ∈ p.keptEvents dropped := by
    intro m hm
    have hkept := List.mem_filter.1 (hsub.subset hm)
    exact h.mem_keptEvents hkept.1 (by simpa using hkept.2)
  unfold Source.Ranked InTypeOrder
  rw [List.pairwise_map]
  have hiff : ∀ a ∈ messages, ∀ b ∈ messages, a.key ≤ b.key →
      (mergeRank (tag (p.keptEvents dropped) a).2 (tag (p.keptEvents dropped) a).1 ≤
        mergeRank (tag (p.keptEvents dropped) b).2 (tag (p.keptEvents dropped) b).1 ↔
      (a.key = b.key → firstOf published a.event ≤ firstOf published b.event)) := by
    intro a ha b hb hle
    rw [← h.idxOf_le_iff (hevent a ha) (hevent b hb)]
    exact mergeRank_le hle
  constructor
  · intro hranked
    exact (hclocked.and hranked).imp_of_mem fun ha hb hab => (hiff _ ha _ hb hab.1).1 hab.2
  · intro hordered
    exact (hclocked.and hordered).imp_of_mem fun ha hb hab => (hiff _ ha _ hb hab.1).2 hab.2

/-- The merge of caches that have all newer messages gives these in order, if the order of the types
does not stand against it. -/
theorem Caches.replay_merged_iff (h : Caches published p) (hclock : Clocked published)
    (hsince : p.completeSince dropped ≤ key) :
    newer key ((p.mergedCaches dropped).map Prod.snd) = newer key (keptOf dropped published) ↔
      InTypeOrder published (newer key (keptOf dropped published)) := by
  have hmerged : Source.Ranked mergeRank
      ((p.mergedCaches dropped).filter fun entry => key < entry.2.key) :=
    (h.ranked_merged hclock).filter _
  have hsnd : newer key ((p.mergedCaches dropped).map Prod.snd) =
      ((p.mergedCaches dropped).filter fun entry => key < entry.2.key).map Prod.snd := by
    unfold newer
    rw [List.filter_map]
    rfl
  have hsub : (newer key (keptOf dropped published)).Sublist (keptOf dropped published) :=
    List.filter_sublist
  rw [hsnd, ← h.ranked_tag_iff hclock hsub]
  constructor
  · intro heq
    rw [← heq, List.map_map]
    have htags : ((p.mergedCaches dropped).filter fun entry => key < entry.2.key).map
        (tag (p.keptEvents dropped) ∘ Prod.snd) =
        (p.mergedCaches dropped).filter fun entry => key < entry.2.key := by
      conv => rhs; rw [← List.map_id ((p.mergedCaches dropped).filter _)]
      exact List.map_congr_left fun entry hentry =>
        (h.tag_of_mem (List.mem_of_mem_filter hentry)).symm
    rw [htags]
    exact hmerged
  · intro hranked
    have heq := hmerged.eq_of_under mergeRank_inj hranked (h.under_merged hclock hsince)
    rw [heq, List.map_map]
    exact List.map_id' _

/-! ## Complete replay -/

/-- The publisher asks a subscriber with the id to reinit. -/
def AsksReinit (p : Publisher) (key : ℕ) (dropped : Finset Text) : Prop :=
  if dropped.Nonempty then key < p.completeSince dropped else p.outdated key = true

/-- A subscriber who gives an id is asked to reinit, or sent what the caches have after it. -/
theorem replay_hexId (p : Publisher) (key : ℕ) (dropped : Finset Text) :
    (p.AsksReinit key dropped ∧
      (p.replay (some (hexId key)) dropped = [.reinit] ∨
        p.replay (some (hexId key)) dropped = [.reinitWithData])) ∨
    (dropped = ∅ ∧ p.outdated key = false ∧
      p.replay (some (hexId key)) dropped = (newer key p.cache).map .message) ∨
    (dropped.Nonempty ∧ p.completeSince dropped ≤ key ∧
      p.replay (some (hexId key)) dropped =
        (newer key ((p.mergedCaches dropped).map Prod.snd)).map .message) := by
  have hreplay : p.replay (some (hexId key)) dropped =
      if dropped.Nonempty then p.replaySome key dropped else p.replayAll key := by
    unfold replay
    rw [Option.bind_some, parseId_hexId]
  rw [hreplay]
  unfold AsksReinit
  by_cases hne : dropped.Nonempty
  · rw [if_pos hne, if_pos hne]
    unfold replaySome
    by_cases hsince : p.completeSince dropped ≤ key
    · exact Or.inr (Or.inr ⟨hne, hsince, if_pos hsince⟩)
    · exact Or.inl ⟨not_le.1 hsince, Or.inr (if_neg hsince)⟩
  · rw [if_neg hne, if_neg hne]
    unfold replayAll
    cases houtdated : p.outdated key with
    | true => exact Or.inl ⟨rfl, Or.inl rfl⟩
    | false => exact Or.inr (Or.inl ⟨Finset.not_nonempty_iff_eq_empty.1 hne, rfl, rfl⟩)

theorem keptOf_empty (messages : List Message) : keptOf ∅ messages = messages := by
  unfold keptOf isDropped
  simp

theorem map_message_ne (messages : List Message) :
    messages.map Item.message ≠ [.reinit] ∧ messages.map Item.message ≠ [.reinitWithData] := by
  cases messages with
  | nil => simp
  | cons m rest => simp

theorem map_message_inj {l l' : List Message} :
    l.map Item.message = l'.map Item.message ↔ l = l' :=
  (List.map_injective_iff.2 fun _ _ => Item.message.inj).eq_iff

/-- After a message, the newer ones are those that do not have its key. -/
theorem newer_later (dropped : Finset Text) {later : List Message}
    (hclock : Clocked (before ++ msg :: later)) :
    newer msg.key (keptOf dropped (before ++ msg :: later)) = newer msg.key (keptOf dropped later) ∧
      (newer msg.key (keptOf dropped later) = keptOf dropped later ↔
        ∀ m ∈ keptOf dropped later, m.key ≠ msg.key) := by
  have hordered := List.pairwise_append.1 hclock
  have hlater := List.pairwise_cons.1 hordered.2.1
  constructor
  · have hsplit : keptOf dropped (before ++ msg :: later) =
        keptOf dropped (before ++ [msg]) ++ keptOf dropped later := by
      unfold keptOf
      rw [← List.filter_append, List.append_assoc, List.singleton_append]
    rw [hsplit]
    refine newer_append (fun m hm => ?_) _
    rcases List.mem_append.1 (List.mem_of_mem_filter hm) with hbefore | hself
    · exact hordered.2.2 m hbefore msg List.mem_cons_self
    · rw [List.mem_singleton.1 hself]
  · unfold newer
    rw [List.filter_eq_self]
    refine forall₂_congr fun m hm => ?_
    have hle := hlater.1 m (List.mem_of_mem_filter hm)
    rw [decide_eq_true_iff]
    omega

/-- A subscriber who comes back with the id of a message is sent exactly the later messages of the
types that he gets, or asked to reinit, if and only if he is asked to reinit, or no such message
has the key of his and, for one with a filter, those with one key are in the order in which their
types were first published. -/
theorem replay_complete_iff (size created : ℕ) (labels : List Label) (dropped : Finset Text)
    (before later : List Message) (msg : Message) (hclock : Clocked (publishedBy labels))
    (hreceived : publishedBy labels = before ++ msg :: later) :
    (((new size created).run labels).replay (some (hexId msg.key)) dropped =
          (keptOf dropped later).map .message ∨
        ((new size created).run labels).replay (some (hexId msg.key)) dropped = [.reinit] ∨
        ((new size created).run labels).replay (some (hexId msg.key)) dropped =
          [.reinitWithData]) ↔
      ((new size created).run labels).AsksReinit msg.key dropped ∨
        (∀ m ∈ keptOf dropped later, m.key ≠ msg.key) ∧
          (dropped.Nonempty → InTypeOrder (publishedBy labels) (keptOf dropped later)) := by
  have hcaches := caches_run size created labels
  have hclock' := hclock
  rw [hreceived] at hclock'
  have hnewer := newer_later dropped hclock'
  rw [← hreceived] at hnewer
  rcases replay_hexId ((new size created).run labels) msg.key dropped with
    ⟨hasks, hreinit⟩ | ⟨hempty, hfresh, hreplay⟩ | ⟨hne, hsince, hreplay⟩
  · exact ⟨fun _ => Or.inl hasks, fun _ => Or.inr hreinit⟩
  · have hnot : ¬((new size created).run labels).AsksReinit msg.key dropped := by
      unfold AsksReinit
      rw [hempty, if_neg Finset.not_nonempty_empty, hfresh]
      exact Bool.false_ne_true
    have hall : newer msg.key ((new size created).run labels).cache =
        newer msg.key (keptOf dropped later) := by
      rw [hcaches.newer_cache hclock hfresh, ← hnewer.1, hempty, keptOf_empty]
    rw [hreplay, hall, map_message_inj, hnewer.2]
    have hordered : ¬dropped.Nonempty := Finset.not_nonempty_iff_eq_empty.2 hempty
    simp [hnot, hordered]
  · have hnot : ¬((new size created).run labels).AsksReinit msg.key dropped := by
      unfold AsksReinit
      rw [if_pos hne]
      exact not_lt.2 hsince
    have hmerged := hcaches.replay_merged_iff hclock hsince
    rw [hreplay, map_message_inj]
    simp only [map_message_ne, or_false, hnot, false_or, hne, true_implies]
    rw [← hnewer.2]
    rw [hnewer.1] at hmerged
    constructor
    · intro heq
      have hself : newer msg.key (keptOf dropped later) = keptOf dropped later := by
        rw [← heq]
        unfold newer
        rw [List.filter_filter]
        simp
      refine ⟨hself, ?_⟩
      rw [← hself] at heq ⊢
      exact hmerged.1 heq
    · rintro ⟨hself, hordered⟩
      rw [← hself] at hordered ⊢
      exact hmerged.2 hordered

/-- A message of a type, with data that tells it apart. -/
def putAt (key : ℕ) (event data : String) : Label :=
  .put key (some event.toList) (some data.toList)

/-- The message that a label publishes. -/
def putMessage (key : ℕ) (event data : String) : Message :=
  ⟨key, some event.toList, some data.toList,
    "id:".toList ++ hexId key ++ "\nevent:".toList ++ event.toList ++ "\ndata:".toList ++
      data.toList ++ "\n\n".toList⟩

theorem replay_complete_example :
    ((new 2 4).run [putAt 5 "user" "a", putAt 6 "user" "b"]).replay (some (hexId 5)) ∅ =
        [Item.message (putMessage 6 "user" "b")] ∨
      ((new 2 4).run [putAt 5 "user" "a", putAt 6 "user" "b"]).replay (some (hexId 5)) ∅ = [.reinit] ∨
      ((new 2 4).run [putAt 5 "user" "a", putAt 6 "user" "b"]).replay (some (hexId 5)) ∅ =
        [.reinitWithData] := by
  have hpublished : publishedBy [putAt 5 "user" "a", putAt 6 "user" "b"] =
      [] ++ putMessage 5 "user" "a" :: [putMessage 6 "user" "b"] := by decide
  refine (replay_complete_iff 2 4 _ ∅ [] [putMessage 6 "user" "b"] (putMessage 5 "user" "a") ?_
    hpublished).2 (Or.inr ⟨?_, ?_⟩)
  · rw [hpublished]
    unfold Clocked
    decide
  · decide
  · intro hne
    exact absurd hne Finset.not_nonempty_empty

def sameMicrosecond : List Label := [putAt 5 "user" "a", putAt 5 "user" "b"]

def typesSwapped : List Label :=
  [putAt 5 "user" "a", putAt 6 "task" "b", putAt 7 "task" "c", putAt 7 "user" "d"]

/-- A message with the key of the one that the client has is not sent again; and messages with one
key are sent in the order of their types. -/
theorem equal_keys_replayed_wrong :
    (publishedBy sameMicrosecond = [putMessage 5 "user" "a", putMessage 5 "user" "b"] ∧
      ((new 2 4).run sameMicrosecond).replay (some (hexId 5)) ∅ = []) ∧
    (publishedBy typesSwapped = [putMessage 5 "user" "a", putMessage 6 "task" "b",
        putMessage 7 "task" "c", putMessage 7 "user" "d"] ∧
      ((new 9 4).run typesSwapped).replay (some (hexId 6)) {"score".toList} =
        [.message (putMessage 7 "user" "d"), .message (putMessage 7 "task" "c")]) := by
  decide

end Publisher

end Events
end ContestManagement
