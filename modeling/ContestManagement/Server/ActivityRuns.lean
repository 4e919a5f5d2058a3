import ContestManagement.Lib.Machine
import ContestManagement.Server.ActivityBuffer

/-!
# Activity does not depend on when the buffer is flushed

The recorder of one web server process as a machine: events go to the buffer, and a flush swaps the
buffer out and writes its chunks one by one, while more events are recorded.  A chunk may fail before
its commit, and a flush may be cancelled between any two of its steps; what it did not write is put
back.

In every state the rows of a key, then what a flush still holds of it, then what is buffered, are in
the order of time, and put together they are the maximal runs of the events of the key.
-/

namespace ContestManagement
namespace Server
namespace Activity

open Lib

/-! ## The runs of events -/

/-- An event that is recorded. -/
structure Event (Device Ip : Type) where
  key : ActivityKey Device Ip
  timestamp : ℤ
  kind : EventKind

variable {Device Ip : Type} (inactivityThreshold : ℤ)

/-- An event starts a new run: a login, the first event after a logout, or after a long gap. -/
def cut (last next : Event Device Ip) : Bool :=
  next.kind = .login || last.kind = .logout ||
    inactivityThreshold < next.timestamp - last.timestamp

/-- The interval of a run of events. -/
def runInterval (first : Event Device Ip) (rest : List (Event Device Ip)) : ActivityInterval where
  startedAt := first.timestamp
  lastSeenAt := (rest.getLastD first).timestamp
  loggedOutAt :=
    if (rest.getLastD first).kind = .logout then some (rest.getLastD first).timestamp else none
  startedBy := if first.kind = .login then .login else .resumed

/-- The intervals of the maximal runs without a cut. -/
def activityRuns (events : List (Event Device Ip)) : List ActivityInterval :=
  (events.splitBy fun last next => !cut inactivityThreshold last next).filterMap fun
    | [] => none
    | first :: rest => some (runInterval first rest)

def Event.interval (event : Event Device Ip) : ActivityInterval :=
  eventInterval event.timestamp event.kind

variable {inactivityThreshold}

theorem mergeRun_eq (first : Event Device Ip) (rest : List (Event Device Ip)) :
    (activityJoining inactivityThreshold).mergeRun first.interval (rest.map Event.interval) =
      runInterval first rest := by
  induction rest using List.reverseRecOn with
  | nil => rfl
  | append_singleton before last ih =>
      have hmerge : (activityJoining inactivityThreshold).mergeRun first.interval
          ((before ++ [last]).map Event.interval) =
            (activityJoining inactivityThreshold).merge
              ((activityJoining inactivityThreshold).mergeRun first.interval
                (before.map Event.interval)) last.interval := by
        simp [Joining.mergeRun]
      rw [hmerge, ih]
      simp [activityJoining, runInterval, Event.interval, eventInterval]

/-- Putting the events together makes their runs. -/
theorem putAll_nil_events (events : List (Event Device Ip)) :
    (activityJoining inactivityThreshold).putAll [] (events.map Event.interval) =
      activityRuns inactivityThreshold events := by
  have hcut : (fun last next : Event Device Ip =>
      (activityJoining inactivityThreshold).joins last.interval next.interval) =
        fun last next => !cut inactivityThreshold last next := by
    ext last next
    have hlong : inactivityThreshold < next.timestamp - last.timestamp ↔
        ¬next.timestamp - last.timestamp ≤ inactivityThreshold := by omega
    by_cases hgap : next.timestamp - last.timestamp ≤ inactivityThreshold <;>
      cases hlast : last.kind <;> cases hnext : next.kind <;>
      simp [activityJoining, Event.interval, eventInterval, cut, hlong, hgap, hlast, hnext,
        -tsub_le_iff_right]
  rw [Joining.putAll_nil_eq_runs, Joining.runs, Joining.splitBy_map, hcut, List.filterMap_map]
  unfold activityRuns
  congr 1
  funext group
  cases group with
  | nil => rfl
  | cons first rest => exact congrArg some (mergeRun_eq first rest)

/-! ## The recorder -/

/-- A flush that holds the lock: the chunks from the current one on, whether the current one is
committed, and the chunks that failed. -/
structure Flush (Device Ip : Type) where
  chunks : List (PendingActivity Device Ip)
  committed : Bool
  unwritten : List (PendingActivity Device Ip)

structure Recorder (Device Ip : Type) where
  pending : PendingActivity Device Ip
  table : Table Device Ip
  flush : Option (Flush Device Ip)
  /-- The events recorded so far, for the statements below. -/
  log : List (Event Device Ip)

inductive Label (Device : Type)
  | event (participationId : ℕ) (device : Option Device) (ip : String) (timestamp : ℤ)
    (kind : EventKind)
  | startFlush
  /-- The current chunk is written and committed. -/
  | commit
  /-- The current chunk fails before its commit. -/
  | fail
  /-- The session of a committed chunk is closed. -/
  | advance
  /-- The flush is cancelled. -/
  | cancel
  /-- A flush is cancelled that still waits for the lock. -/
  | cancelWaiting

variable [DecidableEq Device] [DecidableEq Ip] (inactivityThreshold) (existing : ℕ → Bool)
  (ipAddress : String → Option Ip)

namespace Recorder

/-- The start: an empty buffer and an empty table. -/
def start : Recorder Device Ip := ⟨Dict.empty, fun _ => [], none, []⟩

def recordEvent (s : Recorder Device Ip) (event : Event Device Ip) : Recorder Device Ip :=
  { s with
    pending := record inactivityThreshold s.pending event.key event.timestamp event.kind
    log := s.log ++ [event] }

/-- Put back what a flush did not write, and release the lock. -/
def finish (s : Recorder Device Ip) (unwritten : List (PendingActivity Device Ip)) :
    Recorder Device Ip :=
  { s with pending := putBack s.pending unwritten, flush := none }

/-- Go on with the next chunks, or finish where there are none. -/
def continueWith (s : Recorder Device Ip) (chunks unwritten : List (PendingActivity Device Ip)) :
    Recorder Device Ip :=
  if chunks = [] then s.finish unwritten else { s with flush := some ⟨chunks, false, unwritten⟩ }

/-- `flush`, a step at a time. -/
def step (s : Recorder Device Ip) : Label Device → Option (Recorder Device Ip)
  | .event participationId device ip timestamp kind =>
      match normalizeIp ipAddress ip with
      | none => some s
      | some ip =>
          some (s.recordEvent inactivityThreshold ⟨(participationId, device, ip), timestamp, kind⟩)
  | .startFlush =>
      match s.flush with
      | some _ => none
      | none => some (({ s with pending := Dict.empty } : Recorder Device Ip).continueWith
          (splitIntoChunks s.pending) [])
  | .commit =>
      match s.flush with
      | some ⟨chunk :: chunks, false, unwritten⟩ =>
          some { s with
            table := writePendingActivity inactivityThreshold existing s.table chunk
            flush := some ⟨chunk :: chunks, true, unwritten⟩ }
      | _ => none
  | .fail =>
      match s.flush with
      | some ⟨chunk :: chunks, false, unwritten⟩ =>
          some (s.continueWith chunks (unwritten ++ [chunk]))
      | _ => none
  | .advance =>
      match s.flush with
      | some ⟨_ :: chunks, true, unwritten⟩ => some (s.continueWith chunks unwritten)
      | _ => none
  | .cancel =>
      match s.flush with
      | some ⟨chunks, committed, unwritten⟩ =>
          some (s.finish (unwritten ++ chunks.drop (if committed then 1 else 0)))
      | none => none
  | .cancelWaiting => some s

end Recorder

/-- The recorder and its database. -/
def recorderMachine : Machine (Recorder Device Ip) (Label Device) where
  init s := s = .start
  step s := s.step inactivityThreshold existing ipAddress

/-- The time of an event is later than those before. -/
def Increasing (s : Recorder Device Ip) : Label Device → Prop
  | .event _ _ _ timestamp _ => ∀ event ∈ s.log, event.timestamp < timestamp
  | _ => True

variable {inactivityThreshold} {existing} {ipAddress}

/-! ## What a state knows of a key -/

namespace Recorder

/-- The chunks that the flush has not written. -/
def waiting (s : Recorder Device Ip) : List (PendingActivity Device Ip) :=
  match s.flush with
  | none => []
  | some flush => flush.unwritten ++ flush.chunks.drop (if flush.committed then 1 else 0)

/-- What is not in the table yet: the part that a flush holds, and the part recorded since. -/
def buffered (s : Recorder Device Ip) (key : ActivityKey Device Ip) : List ActivityInterval :=
  (held s.waiting key ++ segmentsOf s.pending key).map PendingSegment.interval

/-- The events of a key. -/
def eventsOf (s : Recorder Device Ip) (key : ActivityKey Device Ip) : List (Event Device Ip) :=
  s.log.filter fun event => event.key = key

/-- The invariant of the recorder. -/
structure Good (inactivityThreshold : ℤ) (existing : ℕ → Bool) (s : Recorder Device Ip) :
    Prop where
  disjoint : DisjointChunks s.waiting
  ordered : ∀ key, Ordered (s.table key ++ s.buffered key)
  seen : ∀ key, ∀ x ∈ s.table key ++ s.buffered key, ∃ event ∈ s.log, x.lastSeenAt ≤ event.timestamp
  runs : ∀ key, existing key.1 = true →
    (activityJoining inactivityThreshold).putAll (s.table key) (s.buffered key) =
      activityRuns inactivityThreshold (s.eventsOf key)
  absent : ∀ key, existing key.1 = false → s.table key = []
  increasing : s.log.Pairwise fun e f => e.timestamp < f.timestamp

theorem good_start : Good inactivityThreshold existing (start : Recorder Device Ip) where
  disjoint := List.Pairwise.nil
  ordered _ := ⟨fun _ h => absurd h List.not_mem_nil, List.Pairwise.nil⟩
  seen _ _ h := absurd h List.not_mem_nil
  runs _ _ := rfl
  absent _ _ := rfl
  increasing := List.Pairwise.nil

/-- A step that only moves activity between the buffer and the flush. -/
theorem Good.of_same {s t : Recorder Device Ip} (h : s.Good inactivityThreshold existing)
    (hdisjoint : DisjointChunks t.waiting) (htable : t.table = s.table) (hlog : t.log = s.log)
    (hbuffered : ∀ key, t.buffered key = s.buffered key) :
    t.Good inactivityThreshold existing where
  disjoint := hdisjoint
  ordered key := by
    rw [htable, hbuffered]
    exact h.ordered key
  seen key := by
    rw [htable, hbuffered, hlog]
    exact h.seen key
  runs key := by
    rw [htable, hbuffered, eventsOf, hlog]
    exact h.runs key
  absent key := by
    rw [htable]
    exact h.absent key
  increasing := by
    rw [hlog]
    exact h.increasing

theorem buffered_finish {unwritten : List (PendingActivity Device Ip)}
    (h : DisjointChunks unwritten) (s : Recorder Device Ip) (key : ActivityKey Device Ip) :
    (s.finish unwritten).buffered key =
      (held unwritten key ++ segmentsOf s.pending key).map PendingSegment.interval := by
  have hnothing : held (s.finish unwritten).waiting key = [] := rfl
  rw [buffered, hnothing, List.nil_append, ← segmentsOf_putBack h]
  rfl

/-- Going on with chunks keeps what is not written. -/
theorem buffered_continueWith {chunks unwritten : List (PendingActivity Device Ip)}
    (h : DisjointChunks (unwritten ++ chunks)) (s : Recorder Device Ip)
    (key : ActivityKey Device Ip) :
    (s.continueWith chunks unwritten).buffered key =
      (held (unwritten ++ chunks) key ++ segmentsOf s.pending key).map PendingSegment.interval := by
  unfold continueWith
  split
  next hnone =>
    subst hnone
    rw [List.append_nil] at h ⊢
    exact buffered_finish h s key
  · rfl

theorem disjoint_continueWith {chunks unwritten : List (PendingActivity Device Ip)}
    (h : DisjointChunks (unwritten ++ chunks)) (s : Recorder Device Ip) :
    DisjointChunks (s.continueWith chunks unwritten).waiting := by
  unfold continueWith
  split
  · exact List.Pairwise.nil
  · exact h

@[simp]
theorem continueWith_table (s : Recorder Device Ip)
    (chunks unwritten : List (PendingActivity Device Ip)) :
    (s.continueWith chunks unwritten).table = s.table := by
  unfold continueWith
  split <;> rfl

@[simp]
theorem continueWith_log (s : Recorder Device Ip)
    (chunks unwritten : List (PendingActivity Device Ip)) :
    (s.continueWith chunks unwritten).log = s.log := by
  unfold continueWith
  split <;> rfl

/-! ## The steps -/

/-- An event is put behind everything that is known of its key. -/
theorem Good.recordEvent {s : Recorder Device Ip} (h : s.Good inactivityThreshold existing)
    {event : Event Device Ip} (hlater : ∀ earlier ∈ s.log, earlier.timestamp < event.timestamp) :
    (s.recordEvent inactivityThreshold event).Good inactivityThreshold existing := by
  have hseen : ∀ key, ∀ x ∈ s.table key ++ s.buffered key, x.lastSeenAt < event.timestamp := by
    intro key x hx
    obtain ⟨earlier, hearlier, hle⟩ := h.seen key x hx
    have hlt := hlater earlier hearlier
    omega
  have hother : ∀ key, key ≠ event.key →
      (s.recordEvent inactivityThreshold event).buffered key = s.buffered key := by
    intro key hkey
    show ((held s.waiting key ++ segmentsOf (record inactivityThreshold s.pending event.key
      event.timestamp event.kind) key).map PendingSegment.interval) = s.buffered key
    rw [segmentsOf_record, if_neg hkey]
    rfl
  have hsame : (s.recordEvent inactivityThreshold event).buffered event.key =
      (held s.waiting event.key).map PendingSegment.interval ++
        (activityJoining inactivityThreshold).put
          ((segmentsOf s.pending event.key).map PendingSegment.interval) event.interval := by
    have hlast : ∀ last ∈ segmentsOf s.pending event.key, last.lastSeen ≤ event.timestamp := by
      intro last hlast
      have hmem : last.interval ∈ s.table event.key ++ s.buffered event.key := by
        refine List.mem_append_right _ (List.mem_map_of_mem ?_)
        exact List.mem_append_right _ hlast
      exact Int.le_of_lt (hseen event.key _ hmem)
    show ((held s.waiting event.key ++ segmentsOf (record inactivityThreshold s.pending event.key
      event.timestamp event.kind) event.key).map PendingSegment.interval) = _
    rw [segmentsOf_record, if_pos rfl, List.map_append, map_interval_recordKind hlast]
    rfl
  have hparts : s.table event.key ++ s.buffered event.key =
      (s.table event.key ++ (held s.waiting event.key).map PendingSegment.interval) ++
        (segmentsOf s.pending event.key).map PendingSegment.interval := by
    rw [buffered, List.map_append, List.append_assoc]
  have hordered : Ordered ((s.table event.key ++
      (held s.waiting event.key).map PendingSegment.interval) ++
        (activityJoining inactivityThreshold).put
          ((segmentsOf s.pending event.key).map PendingSegment.interval) event.interval) := by
    have hconcat := (h.ordered event.key).concat (x := event.interval)
      (eventInterval_valid _ _) (hseen event.key)
    rw [hparts] at hconcat
    have hput := @Ordered.put inactivityThreshold _ _ [] event.interval hconcat
    rwa [List.append_nil] at hput
  refine ⟨h.disjoint, fun key => ?_, fun key x hx => ?_, fun key hexists => ?_, h.absent, ?_⟩
  · by_cases hkey : key = event.key
    · subst hkey
      rw [hsame, ← List.append_assoc]
      exact hordered
    · rw [hother key hkey]
      exact h.ordered key
  · have hold : x ∈ s.table key ++ s.buffered key ∨ x.lastSeenAt = event.timestamp := by
      by_cases hkey : key = event.key
      · subst hkey
        rw [hsame, ← List.append_assoc, List.mem_append] at hx
        rw [hparts]
        rcases hx with hx | hx
        · exact .inl (List.mem_append_left _ hx)
        · rcases exists_lastSeenAt_of_mem_put hx with heq | hmem
          · exact .inr heq
          · exact .inl (List.mem_append_right _ hmem)
      · rw [hother key hkey] at hx
        exact .inl hx
    rcases hold with hold | heq
    · obtain ⟨earlier, hearlier, hle⟩ := h.seen key x hold
      exact ⟨earlier, List.mem_append_left _ hearlier, hle⟩
    · exact ⟨event, List.mem_append_right _ (List.mem_singleton_self event),
        Int.le_of_eq heq⟩
  · have hlog : (s.recordEvent inactivityThreshold event).eventsOf key =
        s.eventsOf key ++ if event.key = key then [event] else [] := by
      unfold eventsOf Recorder.recordEvent
      rw [List.filter_append, List.filter_singleton]
      simp
    by_cases hkey : key = event.key
    · subst hkey
      have hruns := h.runs event.key hexists
      rw [buffered, List.map_append, Joining.putAll_append] at hruns
      have htable : (s.recordEvent inactivityThreshold event).table = s.table := rfl
      rw [hlog, if_pos rfl, hsame, htable, Joining.putAll_append, Joining.putAll_put, hruns,
        ← putAll_nil_events, ← putAll_nil_events, List.map_append]
      exact (Joining.putAll_concat _ _ _ _).symm
    · rw [hlog, if_neg (Ne.symm hkey), List.append_nil, hother key hkey]
      exact h.runs key hexists
  · show (s.log ++ [event]).Pairwise _
    rw [List.pairwise_append]
    refine ⟨h.increasing, List.pairwise_singleton _ _, fun earlier hearlier later hlater' => ?_⟩
    rw [List.mem_singleton.mp hlater']
    exact hlater earlier hearlier

/-- A chunk that is committed moves from the flush to the table. -/
theorem Good.commit {s : Recorder Device Ip} (h : s.Good inactivityThreshold existing)
    {chunk : PendingActivity Device Ip} {chunks unwritten : List (PendingActivity Device Ip)}
    (hflush : s.flush = some ⟨chunk :: chunks, false, unwritten⟩) :
    ({ s with
      table := writePendingActivity inactivityThreshold existing s.table chunk
      flush := some ⟨chunk :: chunks, true, unwritten⟩ } : Recorder Device Ip).Good
        inactivityThreshold existing := by
  have hwaiting : s.waiting = unwritten ++ chunk :: chunks := by
    rw [waiting, hflush]
    rfl
  have hdisjoint := h.disjoint
  rw [hwaiting] at hdisjoint
  -- What is left to write of a key, once its part of the chunk is in the table.
  have hbuffered : ∀ key, s.buffered key =
      (segmentsOf chunk key).map PendingSegment.interval ++
        (held (unwritten ++ chunks) key ++ segmentsOf s.pending key).map
          PendingSegment.interval := by
    intro key
    rw [buffered, hwaiting, held_of_disjoint hdisjoint, List.append_assoc, List.map_append]
  have hordered : ∀ key, Ordered (s.table key ++
      (segmentsOf chunk key).map PendingSegment.interval ++
        (held (unwritten ++ chunks) key ++ segmentsOf s.pending key).map
          PendingSegment.interval) := by
    intro key
    rw [List.append_assoc, ← hbuffered]
    exact h.ordered key
  have htable : ∀ key, writePendingActivity inactivityThreshold existing s.table chunk key =
      if existing key.1 then
        (activityJoining inactivityThreshold).putAll (s.table key)
          ((segmentsOf chunk key).map PendingSegment.interval)
      else s.table key := by
    intro key
    rw [writePendingActivity_apply,
      foldl_mergeSegment ((hordered key).sublist (List.sublist_append_left _ _))]
  have hrest : ∀ key, ({ s with
      table := writePendingActivity inactivityThreshold existing s.table chunk
      flush := some ⟨chunk :: chunks, true, unwritten⟩ } : Recorder Device Ip).buffered key =
        (held (unwritten ++ chunks) key ++ segmentsOf s.pending key).map
          PendingSegment.interval := fun key => rfl
  have hdropped : ∀ key, (s.table key ++ (held (unwritten ++ chunks) key ++
      segmentsOf s.pending key).map PendingSegment.interval).Sublist
        (s.table key ++ s.buffered key) := by
    intro key
    rw [hbuffered]
    exact (List.sublist_append_right _ _).append_left _
  refine ⟨?_, fun key => ?_, fun key x hx => ?_, fun key hexists => ?_, fun key habsent => ?_,
    h.increasing⟩
  · exact hdisjoint.sublist ((List.sublist_cons_self _ _).append_left _)
  · rw [hrest]
    show Ordered (writePendingActivity inactivityThreshold existing s.table chunk key ++ _)
    rw [htable]
    split
    · exact (hordered key).putAll
    · exact (h.ordered key).sublist (hdropped key)
  · rw [hrest] at hx
    change x ∈ writePendingActivity inactivityThreshold existing s.table chunk key ++ _ at hx
    rw [htable] at hx
    have hold : ∃ y ∈ s.table key ++ s.buffered key, x.lastSeenAt = y.lastSeenAt := by
      split at hx
      · rw [hbuffered, ← List.append_assoc]
        rw [List.mem_append] at hx
        rcases hx with hx | hx
        · obtain ⟨y, hy, heq⟩ := exists_lastSeenAt_of_mem_putAll hx
          exact ⟨y, List.mem_append_left _ hy, heq⟩
        · exact ⟨x, List.mem_append_right _ hx, rfl⟩
      · exact ⟨x, (hdropped key).subset hx, rfl⟩
    obtain ⟨y, hy, heq⟩ := hold
    rw [heq]
    exact h.seen key y hy
  · rw [hrest]
    show (activityJoining inactivityThreshold).putAll
      (writePendingActivity inactivityThreshold existing s.table chunk key) _ = _
    rw [htable, if_pos hexists, ← Joining.putAll_append, ← hbuffered]
    exact h.runs key hexists
  · show writePendingActivity inactivityThreshold existing s.table chunk key = []
    rw [htable, if_neg (by simp [habsent])]
    exact h.absent key habsent

/-- A flush that goes on, with the chunks that it has not written. -/
theorem Good.continueWith {s : Recorder Device Ip} (h : s.Good inactivityThreshold existing)
    {chunks unwritten : List (PendingActivity Device Ip)}
    (hwaiting : s.waiting = unwritten ++ chunks) :
    (s.continueWith chunks unwritten).Good inactivityThreshold existing := by
  have hdisjoint := hwaiting ▸ h.disjoint
  refine h.of_same (disjoint_continueWith hdisjoint s) (continueWith_table _ _ _)
    (continueWith_log _ _ _) fun key => ?_
  rw [buffered_continueWith hdisjoint, buffered, hwaiting]

/-- The invariant is kept by every step of a run with increasing times. -/
theorem Good.step {s t : Recorder Device Ip} {label : Label Device}
    (h : s.Good inactivityThreshold existing) (hincreasing : Increasing s label)
    (hstep : s.step inactivityThreshold existing ipAddress label = some t) :
    t.Good inactivityThreshold existing := by
  cases label with
  | event participationId device ip timestamp kind =>
      simp only [Recorder.step] at hstep
      split at hstep
      · exact Option.some.inj hstep ▸ h
      · exact Option.some.inj hstep ▸ h.recordEvent hincreasing
  | startFlush =>
      simp only [Recorder.step] at hstep
      split at hstep
      · cases hstep
      next hidle =>
        rw [← Option.some.inj hstep]
        have hchunks : DisjointChunks ([] ++ splitIntoChunks s.pending) :=
          disjoint_splitIntoChunks s.pending
        refine h.of_same (disjoint_continueWith hchunks _) (continueWith_table _ _ _)
          (continueWith_log _ _ _) fun key => ?_
        rw [buffered_continueWith hchunks, List.nil_append, held_splitIntoChunks, buffered,
          waiting, hidle]
        simp [held, segmentsOf, Dict.get?_empty]
  | commit =>
      simp only [Recorder.step] at hstep
      split at hstep
      next chunk chunks unwritten hflush =>
        rw [← Option.some.inj hstep]
        exact h.commit hflush
      · cases hstep
  | fail =>
      simp only [Recorder.step] at hstep
      split at hstep
      next chunk chunks unwritten hflush =>
        have hwaiting : s.waiting = (unwritten ++ [chunk]) ++ chunks := by
          rw [waiting, hflush]
          simp
        exact Option.some.inj hstep ▸ h.continueWith hwaiting
      · cases hstep
  | advance =>
      simp only [Recorder.step] at hstep
      split at hstep
      next chunk chunks unwritten hflush =>
        have hwaiting : s.waiting = unwritten ++ chunks := by
          rw [waiting, hflush]
          rfl
        exact Option.some.inj hstep ▸ h.continueWith hwaiting
      · cases hstep
  | cancel =>
      simp only [Recorder.step] at hstep
      split at hstep
      next chunks committed unwritten hflush =>
        rw [← Option.some.inj hstep]
        have hwaiting : s.waiting = unwritten ++ chunks.drop (if committed then 1 else 0) := by
          rw [waiting, hflush]
        have hdisjoint := hwaiting ▸ h.disjoint
        refine h.of_same List.Pairwise.nil rfl rfl fun key => ?_
        rw [buffered_finish hdisjoint, buffered, hwaiting]
      · cases hstep
  | cancelWaiting => exact Option.some.inj hstep ▸ h

theorem good_of_path {s t : Recorder Device Ip} (h : s.Good inactivityThreshold existing)
    (hpath : (recorderMachine inactivityThreshold existing ipAddress).Path Increasing s t) :
    t.Good inactivityThreshold existing :=
  hpath.preserves (fun _ _ _ hgood hincreasing hstep => hgood.step hincreasing hstep) h

theorem good_of_reachable {s : Recorder Device Ip}
    (h : (recorderMachine inactivityThreshold existing ipAddress).ReachableVia Increasing s) :
    s.Good inactivityThreshold existing := by
  obtain ⟨_, rfl, hpath⟩ := h
  exact good_of_path good_start hpath

/-- With nothing left to write the rows of a key are the runs of its events. -/
theorem Good.table_eq {s : Recorder Device Ip} (h : s.Good inactivityThreshold existing)
    (hidle : s.flush = none) (hpending : s.pending = Dict.empty) (key : ActivityKey Device Ip) :
    s.table key =
      if existing key.1 then activityRuns inactivityThreshold (s.eventsOf key) else [] := by
  have hbuffered : s.buffered key = [] := by
    rw [buffered, waiting, hidle, hpending]
    rfl
  split
  next hexists => rw [← h.runs key hexists, hbuffered, Joining.putAll_nil]
  next habsent => exact h.absent key (by simpa using habsent)

/-! ## The last flush -/

/-- The steps of a flush in which nothing fails. -/
def successfulFlush (s : Recorder Device Ip) : List (Label Device) :=
  .startFlush :: (splitIntoChunks s.pending).flatMap fun _ => [.commit, .advance]

theorem exec_chunks (s : Recorder Device Ip) (chunks : List (PendingActivity Device Ip)) :
    (recorderMachine inactivityThreshold existing ipAddress).exec (s.continueWith chunks [])
        (chunks.flatMap fun _ => [.commit, .advance]) =
      some { s with
        table := chunks.foldl (writePendingActivity inactivityThreshold existing) s.table
        flush := none } := by
  induction chunks generalizing s with
  | nil => rfl
  | cons chunk rest ih =>
      exact ih { s with
        table := writePendingActivity inactivityThreshold existing s.table chunk
        flush := some ⟨chunk :: rest, true, []⟩ }

/-- A flush in which nothing fails writes every chunk. -/
theorem exec_successfulFlush {s : Recorder Device Ip} (hidle : s.flush = none) :
    (recorderMachine inactivityThreshold existing ipAddress).exec s s.successfulFlush =
      some { s with
        pending := Dict.empty
        table := (splitIntoChunks s.pending).foldl
          (writePendingActivity inactivityThreshold existing) s.table
        flush := none } := by
  have hstart : (recorderMachine inactivityThreshold existing ipAddress).step s .startFlush =
      some (({ s with pending := Dict.empty } : Recorder Device Ip).continueWith
        (splitIntoChunks s.pending) []) := by
    show s.step inactivityThreshold existing ipAddress .startFlush = _
    simp only [Recorder.step, hidle]
  rw [successfulFlush, Machine.exec, hstart, Option.bind_some]
  exact exec_chunks { s with pending := Dict.empty } (splitIntoChunks s.pending)

/-- The table after a flush in which nothing fails. -/
theorem Good.flush {s : Recorder Device Ip} (h : s.Good inactivityThreshold existing)
    (hidle : s.flush = none) (key : ActivityKey Device Ip) :
    (splitIntoChunks s.pending).foldl (writePendingActivity inactivityThreshold existing) s.table
        key =
      if existing key.1 then activityRuns inactivityThreshold (s.eventsOf key) else [] := by
  have hexec : (recorderMachine inactivityThreshold existing fun _ => none).exec s
      s.successfulFlush = some _ := exec_successfulFlush hidle
  have hlabels : ∀ label ∈ s.successfulFlush, ∀ r : Recorder Device Ip, Increasing r label := by
    intro label hlabel r
    rw [successfulFlush, List.mem_cons, List.mem_flatMap] at hlabel
    rcases hlabel with rfl | ⟨_, _, hlabel⟩
    · trivial
    · rw [List.mem_cons, List.mem_singleton] at hlabel
      rcases hlabel with rfl | rfl
      · trivial
      · trivial
  exact (good_of_path h (Machine.path_of_exec hlabels hexec)).table_eq rfl rfl key

end Recorder

/-- The table after events that are all flushed at once. -/
def singleFlush (inactivityThreshold : ℤ) (existing : ℕ → Bool) (events : List (Event Device Ip)) :
    Table Device Ip :=
  (splitIntoChunks (events.foldl (fun pending event =>
      record inactivityThreshold pending event.key event.timestamp event.kind) Dict.empty)).foldl
    (writePendingActivity inactivityThreshold existing) fun _ => []

theorem singleFlush_eq {events : List (Event Device Ip)}
    (h : events.Pairwise fun e f => e.timestamp < f.timestamp) (key : ActivityKey Device Ip) :
    singleFlush inactivityThreshold existing events key =
      if existing key.1 then
        activityRuns inactivityThreshold (events.filter fun event => event.key = key)
      else [] := by
  let recorded : List (Event Device Ip) → Recorder Device Ip := fun events =>
    ⟨events.foldl (fun pending event =>
      record inactivityThreshold pending event.key event.timestamp event.kind) Dict.empty,
      fun _ => [], none, events⟩
  have hgood : (recorded events).Good inactivityThreshold existing := by
    induction events using List.reverseRecOn with
    | nil => exact Recorder.good_start
    | append_singleton before last ih =>
        rw [List.pairwise_append] at h
        have hlast : recorded (before ++ [last]) =
            (recorded before).recordEvent inactivityThreshold last := by
          simp [recorded, Recorder.recordEvent]
        rw [hlast]
        exact (ih h.1).recordEvent fun earlier hearlier =>
          h.2.2 earlier hearlier last (List.mem_singleton_self last)
  exact hgood.flush rfl key

/-- In a run with increasing times, after a flush in which nothing fails nothing is left to write,
and the rows of each key are the intervals of the maximal runs of its events.  They are what a single
flush of all events writes, wherever the run flushed before, failed to write a chunk or was
cancelled. -/
theorem intervals_independent_of_flushes (inactivityThreshold : ℤ) (existing : ℕ → Bool)
    (ipAddress : String → Option Ip) {s : Recorder Device Ip}
    (h : (recorderMachine inactivityThreshold existing ipAddress).ReachableVia Increasing s)
    (hidle : s.flush = none) :
    ∃ t, (recorderMachine inactivityThreshold existing ipAddress).exec s s.successfulFlush = some t ∧
      t.flush = none ∧ t.pending = Dict.empty ∧ t.log = s.log ∧
      ∀ key,
        t.table key =
          (if existing key.1 then activityRuns inactivityThreshold (s.eventsOf key) else []) ∧
        t.table key = singleFlush inactivityThreshold existing s.log key := by
  have hgood := Recorder.good_of_reachable h
  refine ⟨_, Recorder.exec_successfulFlush hidle, rfl, rfl, rfl, fun key => ⟨?_, ?_⟩⟩
  · exact hgood.flush hidle key
  · rw [singleFlush_eq hgood.increasing]
    exact hgood.flush hidle key

/-- A login, a request while the first flush runs, whose chunk fails, and a logout after the second
flush, which is cancelled once its chunk is committed. -/
def retriedRun : List (Label Unit) :=
  [.event 1 none "10.0.0.5" 0 .login, .startFlush, .event 1 none "10.0.0.5" 5 .request, .fail,
    .startFlush, .commit, .cancel, .event 1 none "10.0.0.5%eth0" 7 .logout]

instance (s : Recorder Unit String) (label : Label Unit) : Decidable (Increasing s label) :=
  match label with
  | .event _ _ _ timestamp _ =>
      inferInstanceAs (Decidable (∀ event ∈ s.log, event.timestamp < timestamp))
  | .startFlush | .commit | .fail | .advance | .cancel | .cancelWaiting => .isTrue trivial

theorem intervals_independent_of_flushes_retried :
    ∃ (s t : Recorder Unit String),
      (recorderMachine 60 (fun _ => true) some).execVia Increasing .start retriedRun = some s ∧
      (recorderMachine 60 (fun _ => true) some).exec s s.successfulFlush = some t ∧
      t.table (1, none, "10.0.0.5") = [⟨0, 7, some 7, .login⟩] := by
  let M : Machine (Recorder Unit String) (Label Unit) :=
    recorderMachine 60 (fun _ => true) some
  have hrun : ((M.execVia Increasing .start retriedRun).map fun s =>
      (s.flush.isNone, activityRuns 60 (s.eventsOf (1, none, "10.0.0.5")))) =
        some (true, [⟨0, 7, some 7, .login⟩]) := by decide +kernel
  obtain ⟨s, hs, hresult⟩ := Option.map_eq_some_iff.mp hrun
  rw [Prod.mk.injEq, Option.isNone_iff_eq_none] at hresult
  obtain ⟨t, hflush, -, -, -, htable⟩ := intervals_independent_of_flushes 60 (fun _ => true) some
    ⟨_, rfl, Machine.path_of_execVia hs⟩ hresult.1
  refine ⟨s, t, hs, hflush, ?_⟩
  rw [(htable _).1, if_pos rfl]
  exact hresult.2

end Activity
end Server
end ContestManagement
