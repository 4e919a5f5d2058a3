import Mathlib.Algebra.Order.Sub.Defs
import ContestManagement.Server.Activity

/-!
# What the buffer and the table make of activity

The buffer and the table apply one rule: an event joins the interval before it, unless it is a login,
the interval was ended by a logout, or the gap is longer than the threshold.  Where the intervals of
a key follow each other in time, the minima and maxima of the code are the ends that the rule gives.
-/

namespace ContestManagement
namespace Server
namespace Activity

open Lib

/-! ## Intervals -/

/-- The rule, for intervals in the order of time. -/
def activityJoining (inactivityThreshold : ℤ) : Joining ActivityInterval where
  joins x y := x.loggedOutAt.isNone && y.startedBy ≠ .login &&
    y.startedAt - x.lastSeenAt ≤ inactivityThreshold
  merge x y := ⟨x.startedAt, y.lastSeenAt, y.loggedOutAt, x.startedBy⟩
  joins_merge _ _ _ := rfl
  joins_of_merge _ _ _ := rfl
  merge_assoc _ _ _ := rfl

/-- An interval ends where it was last seen, with a logout too. -/
structure ActivityInterval.Valid (interval : ActivityInterval) : Prop where
  start_le : interval.startedAt ≤ interval.lastSeenAt
  loggedOut : ∀ time, interval.loggedOutAt = some time → time = interval.lastSeenAt

/-- Intervals one after the other. -/
structure Ordered (intervals : List ActivityInterval) : Prop where
  valid : ∀ x ∈ intervals, x.Valid
  apart : intervals.Pairwise fun x y => x.lastSeenAt < y.startedAt

variable {inactivityThreshold : ℤ}

theorem Ordered.sublist {some all : List ActivityInterval} (h : Ordered all)
    (hsub : some.Sublist all) : Ordered some :=
  ⟨fun x hx => h.valid x (hsub.subset hx), h.apart.sublist hsub⟩

/-- A later interval behind the others. -/
theorem Ordered.concat {intervals : List ActivityInterval} {x : ActivityInterval}
    (h : Ordered intervals) (hx : x.Valid)
    (hlater : ∀ y ∈ intervals, y.lastSeenAt < x.startedAt) : Ordered (intervals ++ [x]) := by
  constructor
  · intro y hy
    rw [List.mem_append, List.mem_singleton] at hy
    rcases hy with hy | rfl
    · exact h.valid y hy
    · exact hx
  · rw [List.pairwise_append]
    refine ⟨h.apart, List.pairwise_singleton _ _, fun y hy z hz => ?_⟩
    rw [List.mem_singleton.mp hz]
    exact hlater y hy

/-- Two neighbours that become one leave the intervals in order. -/
theorem Ordered.merge {before after : List ActivityInterval} {x y : ActivityInterval}
    (h : Ordered (before ++ x :: y :: after)) :
    Ordered (before ++ (activityJoining inactivityThreshold).merge x y :: after) := by
  obtain ⟨hvalid, hapart⟩ := h
  rw [List.pairwise_append, List.pairwise_cons, List.pairwise_cons] at hapart
  obtain ⟨hbefore, ⟨hx, hy, hafter⟩, hcross⟩ := hapart
  have hxvalid := hvalid x (by simp)
  have hyvalid := hvalid y (by simp)
  have hgap : x.lastSeenAt < y.startedAt := hx y List.mem_cons_self
  constructor
  · intro z hz
    rw [List.mem_append, List.mem_cons] at hz
    rcases hz with hz | rfl | hz
    · exact hvalid z (by simp [hz])
    · have hx_le := hxvalid.start_le
      have hy_le := hyvalid.start_le
      exact ⟨show x.startedAt ≤ y.lastSeenAt by omega, hyvalid.loggedOut⟩
    · exact hvalid z (by simp [hz])
  · rw [List.pairwise_append, List.pairwise_cons]
    refine ⟨hbefore, ⟨hy, hafter⟩, fun z hz w hw => ?_⟩
    rw [List.mem_cons] at hw
    rcases hw with rfl | hw
    · exact hcross z hz x List.mem_cons_self
    · exact hcross z hz w (List.mem_cons_of_mem _ (List.mem_cons_of_mem _ hw))

/-- Putting an interval behind others, between intervals that stay, keeps the order. -/
theorem Ordered.put {before pieces after : List ActivityInterval} {x : ActivityInterval}
    (h : Ordered (before ++ pieces ++ x :: after)) :
    Ordered (before ++ (activityJoining inactivityThreshold).put pieces x ++ after) := by
  induction pieces using List.reverseRecOn with
  | nil => simpa using h
  | append_singleton pieces y _ =>
      rw [Joining.put_concat]
      split
      · have hneighbours : Ordered ((before ++ pieces) ++ y :: x :: after) := by simpa using h
        simpa using hneighbours.merge
      · simpa using h

theorem Ordered.putAll {pieces added after : List ActivityInterval}
    (h : Ordered (pieces ++ added ++ after)) :
    Ordered ((activityJoining inactivityThreshold).putAll pieces added ++ after) := by
  induction added generalizing pieces with
  | nil => simpa using h
  | cons x rest ih =>
      rw [List.append_assoc, List.cons_append] at h
      have hput := @Ordered.put inactivityThreshold [] pieces (rest ++ after) x h
      rw [List.nil_append, ← List.append_assoc] at hput
      exact ih hput

/-- An interval that is put down ends where one of those put together did. -/
theorem exists_lastSeenAt_of_mem_put {pieces : List ActivityInterval} {x z : ActivityInterval}
    (hz : z ∈ (activityJoining inactivityThreshold).put pieces x) :
    z.lastSeenAt = x.lastSeenAt ∨ z ∈ pieces := by
  induction pieces using List.reverseRecOn with
  | nil =>
      rw [Joining.put_nil, List.mem_singleton] at hz
      exact .inl (congrArg ActivityInterval.lastSeenAt hz)
  | append_singleton pieces y _ =>
      rw [Joining.put_concat] at hz
      split at hz
      · rw [List.mem_append, List.mem_singleton] at hz
        rcases hz with hz | rfl
        · exact .inr (List.mem_append_left _ hz)
        · exact .inl rfl
      · rw [List.mem_append, List.mem_singleton] at hz
        rcases hz with hz | rfl
        · exact .inr hz
        · exact .inl rfl

theorem exists_lastSeenAt_of_mem_putAll {pieces added : List ActivityInterval}
    {z : ActivityInterval} (hz : z ∈ (activityJoining inactivityThreshold).putAll pieces added) :
    ∃ x ∈ pieces ++ added, z.lastSeenAt = x.lastSeenAt := by
  induction added using List.reverseRecOn with
  | nil => exact ⟨z, by simpa using hz, rfl⟩
  | append_singleton before x ih =>
      rw [Joining.putAll_concat] at hz
      rcases exists_lastSeenAt_of_mem_put hz with heq | hmem
      · exact ⟨x, by simp, heq⟩
      · obtain ⟨y, hy, heq⟩ := ih hmem
        rw [← List.append_assoc]
        exact ⟨y, List.mem_append_left _ hy, heq⟩

/-! ## The rows of a key -/

/-- The index of the last row. -/
def lastIndex (rows : List ActivityInterval) : Option ℕ :=
  if rows = [] then none else some (rows.length - 1)

@[simp]
theorem lastIndex_concat (rows : List ActivityInterval) (x : ActivityInterval) :
    lastIndex (rows ++ [x]) = some rows.length := by
  simp [lastIndex]

/-- The latest interval is the last row. -/
theorem latest_eq {rows : List ActivityInterval} (h : Ordered rows) :
    latest rows = lastIndex rows := by
  induction rows using List.reverseRecOn with
  | nil => rfl
  | append_singleton rows x _ =>
      obtain ⟨hvalid, hapart⟩ := h
      rw [List.pairwise_append] at hapart
      have hearlier : ∀ y ∈ rows, y.lastSeenAt < x.lastSeenAt := by
        intro y hy
        have hgap := hapart.2.2 y hy x (List.mem_singleton_self x)
        have hx := (hvalid x (by simp)).start_le
        omega
      have hnone : rows.findIdx? (fun interval =>
          (rows ++ [x]).all fun other => other.lastSeenAt ≤ interval.lastSeenAt) = none := by
        rw [List.findIdx?_eq_none_iff]
        intro y hy
        have hnot : ¬x.lastSeenAt ≤ y.lastSeenAt := by
          have hy_lt := hearlier y hy
          omega
        simp [hnot]
      unfold latest
      rw [List.findIdx?_append, hnone, lastIndex_concat]
      simpa [List.findIdx?_cons] using fun y hy => Int.le_of_lt (hearlier y hy)

/-- A segment that is later than the rows is put behind them. -/
theorem mergeSegment_eq {rows : List ActivityInterval} {segment : PendingSegment}
    (h : Ordered (rows ++ [segment.interval])) :
    mergeSegment inactivityThreshold (rows, lastIndex rows) segment =
      ((activityJoining inactivityThreshold).put rows segment.interval,
        lastIndex ((activityJoining inactivityThreshold).put rows segment.interval)) := by
  induction rows using List.reverseRecOn with
  | nil => rfl
  | append_singleton rows x _ =>
      obtain ⟨hvalid, hapart⟩ := h
      have hx := (hvalid x (by simp)).start_le
      have hsegment := hvalid segment.interval (by simp)
      have hsegment_le : segment.firstSeen ≤ segment.lastSeen := hsegment.start_le
      have hgap : x.lastSeenAt < segment.firstSeen := by
        rw [List.pairwise_append] at hapart
        exact hapart.2.2 x (by simp) segment.interval (List.mem_singleton_self _)
      have hstart : min x.startedAt segment.firstSeen = x.startedAt := by omega
      have hend : segment.loggedOutAt.getD (max x.lastSeenAt segment.lastSeen) =
          segment.lastSeen := by
        cases hlogout : segment.loggedOutAt with
        | some time => exact hsegment.loggedOut time hlogout
        | none =>
            show max x.lastSeenAt segment.lastSeen = segment.lastSeen
            omega
      have hjoins : (x.loggedOutAt.isNone && !segment.login &&
          decide (segment.firstSeen - x.lastSeenAt ≤ inactivityThreshold)) =
            (activityJoining inactivityThreshold).joins x segment.interval := by
        cases hlogin : segment.login <;>
          simp [activityJoining, PendingSegment.interval, hlogin]
      rw [Joining.put_concat]
      simp only [mergeSegment, lastIndex_concat, Option.bind_some, List.getElem?_concat_length,
        Option.map_some, hjoins, hstart, hend]
      split
      · have hset : (rows ++ [x]).set rows.length
            ((activityJoining inactivityThreshold).merge x segment.interval) =
              rows ++ [(activityJoining inactivityThreshold).merge x segment.interval] := by
          simp
        rw [lastIndex_concat, ← hset]
        rfl
      · rw [lastIndex_concat]

/-- A flush puts the segments of a key behind its rows. -/
theorem foldl_mergeSegment {rows : List ActivityInterval} {segments : List PendingSegment}
    (h : Ordered (rows ++ segments.map PendingSegment.interval)) :
    (segments.foldl (mergeSegment inactivityThreshold) (rows, latest rows)).1 =
      (activityJoining inactivityThreshold).putAll rows
        (segments.map PendingSegment.interval) := by
  rw [latest_eq (h.sublist (List.sublist_append_left _ _))]
  induction segments generalizing rows with
  | nil => rfl
  | cons segment rest ih =>
      have hfirst : Ordered (rows ++ [segment.interval]) :=
        h.sublist (by simp)
      rw [List.foldl_cons, mergeSegment_eq hfirst, ih]
      · rfl
      · have hput := @Ordered.put inactivityThreshold [] rows
          (rest.map PendingSegment.interval) segment.interval h
        simpa using hput

/-! ## Events -/

/-- The interval of an event. -/
def eventInterval (timestamp : ℤ) (kind : EventKind) : ActivityInterval where
  startedAt := timestamp
  lastSeenAt := timestamp
  loggedOutAt := if kind = .logout then some timestamp else none
  startedBy := if kind = .login then .login else .resumed

theorem eventInterval_valid (timestamp : ℤ) (kind : EventKind) :
    (eventInterval timestamp kind).Valid := by
  constructor
  · exact Int.le_refl timestamp
  · intro time htime
    cases kind <;> simp_all [eventInterval]

/-- Recording an event puts its interval behind the segments of its key. -/
theorem map_interval_recordKind {segments : List PendingSegment} {timestamp : ℤ}
    (hlast : ∀ last ∈ segments, last.lastSeen ≤ timestamp) (kind : EventKind) :
    (recordKind inactivityThreshold segments timestamp kind).map PendingSegment.interval =
      (activityJoining inactivityThreshold).put (segments.map PendingSegment.interval)
        (eventInterval timestamp kind) := by
  induction segments using List.reverseRecOn with
  | nil => cases kind <;> rfl
  | append_singleton segments last _ =>
      have hmax : max last.lastSeen timestamp = timestamp := by
        have hle := hlast last (by simp)
        omega
      have hlong : inactivityThreshold < timestamp - last.lastSeen ↔
          ¬timestamp - last.lastSeen ≤ inactivityThreshold := by omega
      rw [List.map_append, List.map_singleton, Joining.put_concat]
      -- A logout, a login and a long gap each end the interval before them.
      cases kind <;> cases hlogout : last.loggedOutAt <;>
        by_cases hgap : timestamp - last.lastSeen ≤ inactivityThreshold <;>
        simp [recordKind, recordSegment, logOut, activityJoining, eventInterval,
          PendingSegment.interval, hlogout, hlong, hgap, hmax, -tsub_le_iff_right]

/-! ## Chunks -/

theorem flatMap_range'_drop {α : Type} (size : ℕ) (xs : List α) (count start : ℕ) :
    ((List.range' start count size).flatMap fun start => (xs.drop start).take size) =
      (xs.drop start).take (count * size) := by
  induction count generalizing start with
  | zero => simp
  | succ count ih =>
      rw [List.range'_succ, List.flatMap_cons, ih, Nat.succ_mul, Nat.add_comm (count * size),
        List.take_add, List.drop_drop]

/-- The slices are the list. -/
theorem flatten_slices {α : Type} {size : ℕ} (hsize : 0 < size) (xs : List α) :
    (slices size xs).flatten = xs := by
  have hcovers : xs.length ≤ (xs.length + size - 1) / size * size := by
    have hdiv := Nat.div_add_mod (xs.length + size - 1) size
    have hmod := Nat.mod_lt (xs.length + size - 1) hsize
    rw [Nat.mul_comm] at hdiv
    omega
  unfold slices
  rw [← List.flatMap_def, flatMap_range'_drop, List.drop_zero, List.take_of_length_le hcovers]

variable {Device Ip : Type} [DecidableEq Device] [DecidableEq Ip]

/-- The activity of a participation, if some is buffered. -/
def ofParticipation (found : Dict ℕ (PendingActivity Device Ip)) (id : ℕ) :
    PendingActivity Device Ip :=
  (found.get? id).getD Dict.empty

theorem get?_foldl_byParticipation (pending : PendingActivity Device Ip)
    (found : Dict ℕ (PendingActivity Device Ip)) (id : ℕ) (key : ActivityKey Device Ip) :
    (ofParticipation (pending.items.foldl (fun found item =>
        found.set item.1.1 (((found.get? item.1.1).getD Dict.empty).set item.1 item.2)) found)
      id).get? key =
      if key.1 = id then (pending.get? key).or ((ofParticipation found id).get? key)
      else (ofParticipation found id).get? key := by
  obtain ⟨items, distinct⟩ := pending
  induction items generalizing found with
  | nil => simp [Dict.get?]
  | cons item rest ih =>
      rw [List.map_cons, List.nodup_cons] at distinct
      have hset : (ofParticipation (found.set item.1.1
          (((found.get? item.1.1).getD Dict.empty).set item.1 item.2)) id).get? key =
            if key = item.1 ∧ key.1 = id then some item.2
            else (ofParticipation found id).get? key := by
        unfold ofParticipation
        rw [Dict.get?_set]
        by_cases hid : id = item.1.1
        · subst hid
          rw [if_pos rfl, Option.getD_some, Dict.get?_set]
          by_cases hkey : key = item.1
          · simp [hkey]
          · simp [hkey]
        · rw [if_neg hid]
          have hother : ¬(key = item.1 ∧ key.1 = id) := by
            rintro ⟨rfl, rfl⟩
            exact hid rfl
          rw [if_neg hother]
      rw [List.foldl_cons, ih _ distinct.2, hset]
      unfold Dict.get?
      rw [Dict.lookup_item]
      by_cases hkey : key = item.1
      · subst hkey
        by_cases hid : item.1.1 = id
        · simp [hid, Dict.lookup_eq_none distinct.1]
        · simp [hid]
      · simp [hkey]

/-- The activity of a participation is what is buffered for its keys. -/
theorem get?_byParticipation (pending : PendingActivity Device Ip) (id : ℕ)
    (key : ActivityKey Device Ip) :
    (ofParticipation (byParticipation pending) id).get? key =
      if key.1 = id then pending.get? key else none := by
  have hempty : (ofParticipation (Dict.empty : Dict ℕ (PendingActivity Device Ip)) id).get? key =
      none := rfl
  unfold byParticipation
  rw [get?_foldl_byParticipation, hempty, Option.or_none]

theorem mem_keys_byParticipation {pending : PendingActivity Device Ip}
    {key : ActivityKey Device Ip} (h : pending.get? key ≠ none) :
    key.1 ∈ (byParticipation pending).keys := by
  by_contra hkey
  have hfound := get?_byParticipation pending key.1 key
  have hnone : (byParticipation pending).get? key.1 = none := by
    rw [Option.eq_none_iff_forall_ne_some]
    intro value hvalue
    exact hkey (Dict.mem_keys_iff.2 ⟨value, hvalue⟩)
  rw [if_pos rfl, ofParticipation, hnone] at hfound
  exact h hfound.symm

/-- A chunk has the keys of its participations. -/
theorem get?_chunk (pending : PendingActivity Device Ip) (ids : List ℕ)
    (key : ActivityKey Device Ip) :
    (ids.foldl (fun chunk id =>
        chunk.update (((byParticipation pending).get? id).getD Dict.empty)) Dict.empty).get? key =
      if key.1 ∈ ids then pending.get? key else none := by
  induction ids using List.reverseRecOn with
  | nil => rfl
  | append_singleton before id ih =>
      have hid := get?_byParticipation pending id key
      unfold ofParticipation at hid
      rw [List.foldl_append, List.foldl_cons, List.foldl_nil, Dict.get?_update, ih, hid]
      by_cases hlast : key.1 = id
      · have hmem : key.1 ∈ before ++ [id] := by simp [hlast]
        rw [if_pos hlast, if_pos hmem]
        split
        · exact Option.or_self
        · exact Option.or_none
      · simp [hlast]

theorem segmentsOf_record (inactivityThreshold : ℤ) (pending : PendingActivity Device Ip)
    (key : ActivityKey Device Ip) (timestamp : ℤ) (kind : EventKind)
    (other : ActivityKey Device Ip) :
    segmentsOf (record inactivityThreshold pending key timestamp kind) other =
      if other = key then recordKind inactivityThreshold (segmentsOf pending key) timestamp kind
      else segmentsOf pending other := by
  unfold record
  rw [segmentsOf, Dict.get?_set]
  split
  · rfl
  · rfl

/-- What a list of chunks holds for a key. -/
def held (chunks : List (PendingActivity Device Ip)) (key : ActivityKey Device Ip) :
    List PendingSegment :=
  chunks.flatMap fun chunk => segmentsOf chunk key

/-- No two chunks have a key in common. -/
def DisjointChunks (chunks : List (PendingActivity Device Ip)) : Prop :=
  chunks.Pairwise fun c d => ∀ key, c.get? key = none ∨ d.get? key = none

theorem segmentsOf_eq_nil {chunk : PendingActivity Device Ip} {key : ActivityKey Device Ip}
    (h : chunk.get? key = none) : segmentsOf chunk key = [] := by
  rw [segmentsOf, h, Option.getD_none]

theorem held_eq_nil {chunks : List (PendingActivity Device Ip)} {key : ActivityKey Device Ip}
    (h : ∀ chunk ∈ chunks, chunk.get? key = none) : held chunks key = [] := by
  rw [held, List.flatMap_eq_nil_iff]
  exact fun chunk hchunk => segmentsOf_eq_nil (h chunk hchunk)

/-- One of the chunks, taken out of the others. -/
theorem held_of_disjoint {before after : List (PendingActivity Device Ip)}
    {chunk : PendingActivity Device Ip} (h : DisjointChunks (before ++ chunk :: after))
    (key : ActivityKey Device Ip) :
    held (before ++ chunk :: after) key = segmentsOf chunk key ++ held (before ++ after) key := by
  unfold DisjointChunks at h
  rw [List.pairwise_append] at h
  have happend : ∀ first second : List (PendingActivity Device Ip),
      held (first ++ second) key = held first key ++ held second key := fun _ _ =>
    List.flatMap_append
  have hcons : held (chunk :: after) key = segmentsOf chunk key ++ held after key := rfl
  rw [happend, happend, hcons]
  by_cases hchunk : chunk.get? key = none
  · rw [segmentsOf_eq_nil hchunk, List.nil_append, List.nil_append]
  · have hbefore : held before key = [] := held_eq_nil fun c hc =>
      (h.2.2 c hc chunk List.mem_cons_self key).resolve_right hchunk
    rw [hbefore, List.nil_append, List.nil_append]

theorem flatMap_of_mem {α β : Type} [DecidableEq α] {groups : List (List α)}
    (hnodup : groups.flatten.Nodup) (a : α) (x : List β) :
    (groups.flatMap fun group => if a ∈ group then x else []) =
      if a ∈ groups.flatten then x else [] := by
  induction groups with
  | nil => rfl
  | cons group groups ih =>
      rw [List.flatten_cons, List.nodup_append] at hnodup
      rw [List.flatMap_cons, ih hnodup.2.1, List.flatten_cons]
      by_cases hgroup : a ∈ group
      · have hothers : a ∉ groups.flatten := fun h => hnodup.2.2 a hgroup a h rfl
        simp only [List.mem_append, hgroup, hothers, if_true, if_false, or_false,
          List.append_nil]
      · simp only [List.mem_append, hgroup, if_false, false_or, List.nil_append]

theorem flatten_ids (pending : PendingActivity Device Ip) :
    (slices flushChunkSize ((byParticipation pending).keys.mergeSort (· ≤ ·))).flatten =
      (byParticipation pending).keys.mergeSort (· ≤ ·) :=
  flatten_slices (by decide) _

theorem nodup_ids (pending : PendingActivity Device Ip) :
    ((byParticipation pending).keys.mergeSort (· ≤ ·)).Nodup :=
  (List.mergeSort_perm _ _).nodup_iff.mpr (byParticipation pending).distinct

/-- The chunks hold what is buffered. -/
theorem held_splitIntoChunks (pending : PendingActivity Device Ip) (key : ActivityKey Device Ip) :
    held (splitIntoChunks pending) key = segmentsOf pending key := by
  have hchunk : ∀ ids : List ℕ, segmentsOf (ids.foldl (fun chunk id =>
      chunk.update (((byParticipation pending).get? id).getD Dict.empty)) Dict.empty) key =
        if key.1 ∈ ids then segmentsOf pending key else [] := by
    intro ids
    rw [segmentsOf, get?_chunk]
    by_cases hid : key.1 ∈ ids
    · rw [if_pos hid, if_pos hid, segmentsOf]
    · rw [if_neg hid, if_neg hid, Option.getD_none]
  unfold held splitIntoChunks
  rw [List.flatMap_map]
  simp only [hchunk]
  rw [flatMap_of_mem (by rw [flatten_ids]; exact nodup_ids pending), flatten_ids]
  by_cases hkey : pending.get? key = none
  · rw [segmentsOf_eq_nil hkey, ite_self]
  · rw [if_pos]
    exact List.mem_mergeSort.mpr (mem_keys_byParticipation hkey)

theorem disjoint_splitIntoChunks (pending : PendingActivity Device Ip) :
    DisjointChunks (splitIntoChunks pending) := by
  have hnodup := nodup_ids pending
  rw [← flatten_ids, List.nodup_flatten] at hnodup
  unfold DisjointChunks splitIntoChunks
  rw [List.pairwise_map]
  refine hnodup.2.imp fun {first second} hdisjoint key => ?_
  rw [get?_chunk, get?_chunk]
  by_cases hkey : key.1 ∈ first
  · exact .inr (if_neg fun h => hdisjoint hkey h)
  · exact .inl (if_neg hkey)

/-- The chunks put together hold what each of them holds. -/
theorem segmentsOf_updates {chunks : List (PendingActivity Device Ip)}
    (h : DisjointChunks chunks) (key : ActivityKey Device Ip) :
    segmentsOf (Dict.updates chunks) key = held chunks key := by
  induction chunks using List.reverseRecOn with
  | nil => rfl
  | append_singleton before chunk ih =>
      unfold DisjointChunks at h
      rw [List.pairwise_append] at h
      have hih := ih h.1
      rw [held, List.flatMap_append, ← held, ← hih, List.flatMap_singleton]
      unfold segmentsOf
      rw [Dict.updates_concat, Dict.get?_update]
      cases hchunk : chunk.get? key with
      | none => simp
      | some segments =>
          have hbefore : held before key = [] := by
            refine held_eq_nil fun c hc => ?_
            have hone := h.2.2 c hc chunk (List.mem_singleton_self _) key
            rw [hchunk] at hone
            exact hone.resolve_right (by simp)
          rw [← segmentsOf, hih, hbefore]
          rfl

/-- What is put back stands in front of what was recorded since. -/
theorem segmentsOf_putBack {chunks : List (PendingActivity Device Ip)} (h : DisjointChunks chunks)
    (pending : PendingActivity Device Ip) (key : ActivityKey Device Ip) :
    segmentsOf (putBack pending chunks) key = held chunks key ++ segmentsOf pending key := by
  unfold putBack
  split
  next hnone =>
    subst hnone
    rfl
  · rw [← segmentsOf_updates h]
    unfold segmentsOf
    rw [Dict.get?_mergeWith]
    cases pending.get? key with
    | none => simp
    | some segments => rfl

/-- A flush changes the rows of each key by the segments of the key. -/
theorem writePendingActivity_apply (inactivityThreshold : ℤ) (existing : ℕ → Bool)
    (table : Table Device Ip) (pending : PendingActivity Device Ip) (key : ActivityKey Device Ip) :
    writePendingActivity inactivityThreshold existing table pending key =
      if existing key.1 then
        ((segmentsOf pending key).foldl (mergeSegment inactivityThreshold)
          (table key, latest (table key))).1
      else table key := by
  have hrows : ∀ rows : Table Device Ip, pending.items.foldl (fun rows item =>
      if existing item.1.1 then
        Function.update rows item.1
          (item.2.foldl (mergeSegment inactivityThreshold) (rows item.1, latest (table item.1))).1
      else rows) rows key =
        if existing key.1 then
          ((segmentsOf pending key).foldl (mergeSegment inactivityThreshold)
            (rows key, latest (table key))).1
        else rows key := by
    obtain ⟨items, distinct⟩ := pending
    induction items with
    | nil => simp [segmentsOf, Dict.get?]
    | cons item rest ih =>
        intro rows
        rw [List.map_cons, List.nodup_cons] at distinct
        rw [List.foldl_cons, ih distinct.2]
        unfold segmentsOf Dict.get?
        rw [Dict.lookup_item]
        by_cases hkey : key = item.1
        · subst hkey
          rw [Dict.lookup_eq_none distinct.1]
          cases existing item.1.1 <;> simp
        · rw [if_neg hkey]
          cases existing item.1.1 <;> simp [Function.update_of_ne hkey]
  exact hrows table

end Activity
end Server
end ContestManagement
