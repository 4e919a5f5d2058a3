import ContestManagement.Lib.Python
import ContestManagement.Service.Regenerate

/-!
# Reinitializing the rankings

`_reinitialize_sync` compares the contests of the ranking groups with those that it remembers:
a group that lost a contest is reset, the data of all contests is sent again, and then the
scores and tokens of the contests of a reset group, of those new to their group, and of those
that were held back.  A database error puts the remembered contests back; what was queued stays
queued.

The assignment of the contests changes only between the calls, no group is archived, and the
data of a contest can always be built, so a contest is held back only because of a database
error.  Submissions are scored between the calls too.  The operations of a contest other than its
scores and tokens are one operation, and the visibility settings are left out.  `settled` and
`mark` are not in the code: they say what the assignment was after the last successful call, and
how long the queue.
-/

namespace ContestManagement
namespace Service
namespace Reinitialize

open Lib
open Regenerate (Part Key)

/-- The operations of a group. -/
inductive Item
  | reset
  | contestData (contest : ℕ)
  | submission (id : ℕ)
  | subchange (key : Key)
  deriving DecidableEq

structure Proxy where
  /-- The ranking group of each contest that has one. -/
  assigned : Dict ℕ String
  /-- The contest of each submission. -/
  contestOf : ℕ → ℕ
  /-- The scores and tokens of the scored official visible submissions. -/
  known : List Key
  sent : Finset Key
  broken : Finset ℕ
  groupContests : Dict String (Finset ℕ)
  queue : List (String × Item)
  settled : Dict ℕ String
  mark : ℕ

/-! ## The contests of the groups -/

/-- `_contests_to_send`: the contests in the order of their IDs. -/
def contestsToSend (assigned : Dict ℕ String) : List (ℕ × String) :=
  assigned.items.insertionSort fun a b => a.1 ≤ b.1

/-- `mapping.get(group, set())`. -/
def contestsOf (mapping : Dict String (Finset ℕ)) (group : String) : Finset ℕ :=
  (mapping.get? group).getD ∅

/-- `_compute_group_contests`. -/
def computeGroupContests (assigned : Dict ℕ String) : Dict String (Finset ℕ) :=
  (contestsToSend assigned).foldl
    (fun mapping item => mapping.set item.2 (insert item.1 (contestsOf mapping item.2))) Dict.empty

/-- The groups that lost contests. -/
def lostGroups (old new : Dict String (Finset ℕ)) : List String :=
  sortedStrings ((old.items.filter fun item => ¬ item.2 ⊆ contestsOf new item.1).map Prod.fst)

/-- The contests new to their group. -/
def gainedContests (old new : Dict String (Finset ℕ)) : Finset ℕ :=
  new.items.foldl (fun gained item => gained ∪ (item.2 \ contestsOf old item.1)) ∅

/-! ## The body of the call -/

/-- Where a database error hits. -/
inductive Fault
  /-- While the groups are read. -/
  | reading
  /-- After some of the resets. -/
  | resetting (resets : ℕ)
  /-- Before the contests are read to send their data. -/
  | contests
  /-- While the data of a contest is read, after that of some others. -/
  | contestData (contests : ℕ)
  /-- After some of the scores and tokens. -/
  | sending (operations : ℕ)

namespace Proxy

def queueResets (s : Proxy) (groups : List String) : Proxy :=
  { s with queue := s.queue ++ groups.map fun group => (group, .reset) }

/-- `_enqueue_contest_data`: the contest is not held back any more. -/
def queueContest (s : Proxy) (item : ℕ × String) : Proxy :=
  { s with
    queue := s.queue ++ [(item.2, .contestData item.1)]
    broken := s.broken.erase item.1 }

/-- The score or token of a submission of a contest, marked as sent and queued. -/
def send (s : Proxy) (contest : ℕ) (group : String) (key : Key) : Proxy :=
  if contest ∈ s.broken then s
  else
    { s with
      sent := insert key s.sent
      queue := s.queue ++ [(group, .submission key.submission), (group, .subchange key)] }

/-- The scores and tokens of the contests of lost groups and of gained contests. -/
def toSend (s : Proxy) (lost : List String) (gained : Finset ℕ) : List (ℕ × String × Key) :=
  ((contestsToSend s.assigned).filter fun item => item.2 ∈ lost || item.1 ∈ gained).flatMap
    fun item => (s.known.filter fun key => s.contestOf key.submission = item.1).map fun key =>
      (item.1, item.2, key)

def sendAll (s : Proxy) (operations : List (ℕ × String × Key)) : Proxy :=
  operations.foldl (fun s op => s.send op.1 op.2.1 op.2.2) s

/-- The groups that the call finds to have lost contests. -/
def lost (s : Proxy) : List String :=
  lostGroups s.groupContests (computeGroupContests s.assigned)

/-- The contests that the call finds new to their group. -/
def gained (s : Proxy) : Finset ℕ :=
  gainedContests s.groupContests (computeGroupContests s.assigned)

/-- The resets are queued, and the data of the contests. -/
def initialized (s : Proxy) : Proxy :=
  (contestsToSend s.assigned).foldl queueContest (s.queueResets s.lost)

/-- What the call sends of the submissions, the contests fixed by it included. -/
def operations (s : Proxy) : List (ℕ × String × Key) :=
  s.initialized.toSend s.lost (s.gained ∪ (s.broken \ s.initialized.broken))

/-- `_reinitialize_sync`.  After an error the remembered contests are those from before. -/
def reinitializeSync (s : Proxy) : Option Fault → Proxy
  | some .reading => s
  | some (.resetting resets) => s.queueResets (s.lost.take resets)
  | some .contests => s.queueResets s.lost
  | some (.contestData contests) =>
      let t := ((contestsToSend s.assigned).take contests).foldl queueContest (s.queueResets s.lost)
      -- The contest and those not read yet are held back.
      let rest := ((contestsToSend s.assigned).drop contests).map Prod.fst
      { t with broken := t.broken ∪ rest.toFinset }
  | some (.sending operations) => s.initialized.sendAll (s.operations.take operations)
  | none =>
      let t := s.initialized.sendAll s.operations
      { t with
        groupContests := computeGroupContests s.assigned
        settled := s.assigned
        mark := t.queue.length }

end Proxy

/-! ## Runs -/

inductive Label
  | assign (contest : ℕ) (group : Option String)
  /-- A submission was scored, or a token was used on it. -/
  | learn (key : Key)
  | reinitializeSync (fault : Option Fault)

/-- What is queued for a group after its last reset. -/
def sinceReset (queue : List (String × Item)) (group : String) : List Item :=
  sinceLast (fun item => item = .reset) ((queue.filter fun entry => entry.1 = group).map Prod.snd)

namespace Proxy

def step (s : Proxy) : Label → Option Proxy
  | .assign contest (some group) => some { s with assigned := s.assigned.set contest group }
  | .assign contest none => some { s with assigned := s.assigned.erase contest }
  | .learn key => some { s with known := s.known ++ [key] }
  | .reinitializeSync fault => some (s.reinitializeSync fault)

/-- A group was reset by a call that failed, since the last successful call. -/
def ResetSince (s : Proxy) (group : String) : Prop :=
  (group, Item.reset) ∈ s.queue.drop s.mark

/-- The service at its start, or after a successful call: what is marked as sent is queued after
the last reset of the group of its contest. -/
structure Fresh (s : Proxy) : Prop where
  unbroken : s.broken = ∅
  remembered : s.groupContests = computeGroupContests s.assigned
  settled : s.settled = s.assigned
  mark : s.mark = s.queue.length
  known : ∀ key ∈ s.sent, key ∈ s.known
  queued : ∀ key ∈ s.sent, ∀ group, s.assigned.get? (s.contestOf key.submission) = some group →
    .subchange key ∈ sinceReset s.queue group

end Proxy

def machine : Machine Proxy Label where
  init := Proxy.Fresh
  step := Proxy.step

/-- What a successful call has to achieve. -/
structure Converged (s s' : Proxy) : Prop where
  /-- A group that lost a contest since the last successful call was reset since then. -/
  reset : ∀ contest group, s.settled.get? contest = some group →
    s'.assigned.get? contest ≠ some group → (group, .reset) ∈ s'.queue.drop s.mark
  /-- The data of a contest is queued after the last reset of its group. -/
  contestData : ∀ contest group, s'.assigned.get? contest = some group →
    .contestData contest ∈ sinceReset s'.queue group
  /-- So are its scores and tokens, or they are not marked as sent. -/
  submissions : ∀ key ∈ s'.known, ∀ group,
    s'.assigned.get? (s'.contestOf key.submission) = some group →
      key ∉ s'.sent ∨ .subchange key ∈ sinceReset s'.queue group

/-- No contest of a group that a failed call has reset since the last successful call is passed
over: the group still lacks a contest that it had then, or the contest was not in the group then,
or it is held back. -/
def RefillsResets (s : Proxy) : Prop :=
  ∀ entry ∈ s.queue.drop s.mark, entry.2 = .reset → ∀ item ∈ s.assigned.items, item.2 = entry.1 →
    (∃ other ∈ s.settled.items, other.2 = entry.1 ∧ s.assigned.get? other.1 ≠ some entry.1) ∨
      s.settled.get? item.1 ≠ some entry.1 ∨ item.1 ∈ s.broken

instance : DecidablePred RefillsResets := fun s =>
  inferInstanceAs (Decidable (∀ entry ∈ s.queue.drop s.mark, _))

/-- The steps in which nothing goes wrong. -/
def Careful (s : Proxy) : Label → Prop
  | .reinitializeSync none => RefillsResets s
  | _ => True

instance (s : Proxy) (label : Label) : Decidable (Careful s label) :=
  match label with
  | .reinitializeSync none => inferInstanceAs (Decidable (RefillsResets s))
  | .reinitializeSync (some _) | .assign _ _ | .learn _ => inferInstanceAs (Decidable True)

end Reinitialize
end Service
end ContestManagement
