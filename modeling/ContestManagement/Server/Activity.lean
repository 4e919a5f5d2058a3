import Mathlib.Logic.Function.Basic
import ContestManagement.Lib.Dict
import ContestManagement.Lib.Joining

/-!
# Intervals of activity

A web server records when a participation makes requests from a device and an address.  Requests,
logins and logouts go to a buffer of segments, and a flush merges the segments into the intervals of
the database, in chunks of participations with a transaction each.  What a flush could not write is
put back in front of what was recorded in the meantime.

The canonical text of an address stands for the address.  Times are in microseconds.
-/

namespace ContestManagement
namespace Server
namespace Activity

open Lib

/-! ## The buffer -/

/-- Activity of a key that is not written to the database yet. -/
structure PendingSegment where
  firstSeen : ℤ
  lastSeen : ℤ
  login : Bool
  loggedOutAt : Option ℤ
  deriving DecidableEq

variable {Device Ip : Type} [DecidableEq Device] [DecidableEq Ip]

/-- A participation, a device and an address. -/
abbrev ActivityKey (Device Ip : Type) := ℕ × Option Device × Ip

abbrev PendingActivity (Device Ip : Type) := Dict (ActivityKey Device Ip) (List PendingSegment)

/-- The segments of a key. -/
def segmentsOf (pending : PendingActivity Device Ip) (key : ActivityKey Device Ip) :
    List PendingSegment :=
  (pending.get? key).getD []

/-- `normalize_ip`, for a library that reads addresses. -/
def normalizeIp (ipAddress : String → Option Ip) (ip : String) : Option Ip :=
  ipAddress (String.ofList (ip.toList.takeWhile (· ≠ '%')))

variable (inactivityThreshold : ℤ)

/-- `_record`, on the segments of the key. -/
def recordSegment (segments : List PendingSegment) (timestamp : ℤ) (login : Bool) :
    List PendingSegment :=
  match segments.getLast? with
  | none => segments ++ [⟨timestamp, timestamp, login, none⟩]
  | some last =>
      if login || last.loggedOutAt.isSome || inactivityThreshold < timestamp - last.lastSeen then
        segments ++ [⟨timestamp, timestamp, login, none⟩]
      else segments.dropLast ++ [{ last with lastSeen := max last.lastSeen timestamp }]

/-- `segment.logged_out_at = timestamp`, for the last segment. -/
def logOut (segments : List PendingSegment) (timestamp : ℤ) : List PendingSegment :=
  match segments.getLast? with
  | none => segments
  | some last => segments.dropLast ++ [{ last with loggedOutAt := some timestamp }]

/-- What is recorded. -/
inductive EventKind
  | request
  | login
  | logout
  deriving DecidableEq

/-- `record` and `record_logout`, on the segments of the key. -/
def recordKind (segments : List PendingSegment) (timestamp : ℤ) : EventKind → List PendingSegment
  | .request => recordSegment inactivityThreshold segments timestamp false
  | .login => recordSegment inactivityThreshold segments timestamp true
  | .logout => logOut (recordSegment inactivityThreshold segments timestamp false) timestamp

/-- `record` and `record_logout`, at an address. -/
def record (pending : PendingActivity Device Ip) (key : ActivityKey Device Ip) (timestamp : ℤ)
    (kind : EventKind) : PendingActivity Device Ip :=
  pending.set key (recordKind inactivityThreshold (segmentsOf pending key) timestamp kind)

/-! ## Chunks -/

/-- `FLUSH_CHUNK_SIZE`. -/
def flushChunkSize : ℕ := 500

/-- `by_participation`. -/
def byParticipation (pending : PendingActivity Device Ip) : Dict ℕ (PendingActivity Device Ip) :=
  pending.items.foldl (fun found item =>
    found.set item.1.1 (((found.get? item.1.1).getD Dict.empty).set item.1 item.2)) Dict.empty

/-- A list in slices of a size: `xs[start:start + size] for start in range(0, len(xs), size)`. -/
def slices {α : Type} (size : ℕ) (xs : List α) : List (List α) :=
  (List.range' 0 ((xs.length + size - 1) / size) size).map fun start => (xs.drop start).take size

/-- `split_into_chunks`. -/
def splitIntoChunks (pending : PendingActivity Device Ip) : List (PendingActivity Device Ip) :=
  (slices flushChunkSize ((byParticipation pending).keys.mergeSort (· ≤ ·))).map fun ids =>
    ids.foldl (fun chunk id =>
      chunk.update (((byParticipation pending).get? id).getD Dict.empty)) Dict.empty

/-- `_put_back`. -/
def putBack (pending : PendingActivity Device Ip) (chunks : List (PendingActivity Device Ip)) :
    PendingActivity Device Ip :=
  if chunks = [] then pending
  else (Dict.updates chunks).mergeWith (fun restored segments => restored.getD [] ++ segments)
    pending

/-! ## The table -/

/-- What started an interval. -/
inductive StartedBy
  | login
  | resumed
  deriving DecidableEq

structure ActivityInterval where
  startedAt : ℤ
  lastSeenAt : ℤ
  loggedOutAt : Option ℤ
  startedBy : StartedBy
  deriving DecidableEq

/-- The rows of each key, in the order in which they were added. -/
abbrev Table (Device Ip : Type) := ActivityKey Device Ip → List ActivityInterval

/-- The latest interval of a key: its index among the rows. -/
def latest (rows : List ActivityInterval) : Option ℕ :=
  rows.findIdx? fun interval => rows.all fun other => other.lastSeenAt ≤ interval.lastSeenAt

/-- The interval of a segment. -/
def PendingSegment.interval (segment : PendingSegment) : ActivityInterval where
  startedAt := segment.firstSeen
  lastSeenAt := segment.lastSeen
  loggedOutAt := segment.loggedOutAt
  startedBy := if segment.login then .login else .resumed

/-- Merge a segment into the rows of its key; `interval` is an index. -/
def mergeSegment (state : List ActivityInterval × Option ℕ) (segment : PendingSegment) :
    List ActivityInterval × Option ℕ :=
  match state.2.bind fun index => state.1[index]?.map fun interval => (index, interval) with
  | none => (state.1 ++ [segment.interval], some state.1.length)
  | some (index, interval) =>
      if interval.loggedOutAt.isNone && !segment.login &&
          segment.firstSeen - interval.lastSeenAt ≤ inactivityThreshold then
        (state.1.set index {
          startedAt := min interval.startedAt segment.firstSeen
          lastSeenAt := segment.loggedOutAt.getD (max interval.lastSeenAt segment.lastSeen)
          loggedOutAt := segment.loggedOutAt
          startedBy := interval.startedBy }, some index)
      else (state.1 ++ [segment.interval], some state.1.length)

/-- `write_pending_activity`; a participation that does not exist has no rows. -/
def writePendingActivity (existing : ℕ → Bool) (table : Table Device Ip)
    (pending : PendingActivity Device Ip) : Table Device Ip :=
  pending.items.foldl (fun rows item =>
    if existing item.1.1 then
      Function.update rows item.1
        (item.2.foldl (mergeSegment inactivityThreshold)
          (rows item.1, latest (table item.1))).1
    else rows) table

end Activity
end Server
end ContestManagement
