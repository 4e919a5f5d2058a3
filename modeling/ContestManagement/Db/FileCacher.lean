import Mathlib.Logic.Function.Basic
import Mathlib.Tactic
import ContestManagement.Lib.Machine
import ContestManagement.Db.Files

/-!
# The file cacher

`cms/db/filecacher.py`: files pass through temporary copies, a backend and a cache directory that
many services share.  The steps of an operation are its calls of the file system and of the
backend; between two of them any other operation may move, anyone may remove a file of the cache,
and an operation may fail or be killed.

What only one operation can see is part of that operation: its temporary file, and the file object
that it writes for the backend (a temporary file next to the others, or a large object in a
transaction that is not committed yet).
-/

namespace ContestManagement
namespace Db

open Lib

abbrev Bytes := List UInt8

/-! ## Backends -/

/-- What a backend does, call by call.  A file object that is open for reading keeps its content,
whatever happens to the file. -/
structure Backend where
  State : Type
  /-- `get_file`; nothing stands for a `KeyError`. -/
  getFile : State → String → Option Bytes
  /-- Whether `create_file` returns `None`: the file is there already. -/
  isStored : State → String → Bool
  /-- `commit_file`, with what was written to the file object. -/
  commitFile : State → String → Bytes → State
  delete : State → String → State
  isStored_eq : ∀ s digest, isStored s digest = (getFile s digest).isSome
  getFile_commitFile : ∀ s digest content other, getFile (commitFile s digest content) other =
    if other = digest then some ((getFile s digest).getD content) else getFile s other
  getFile_delete : ∀ s digest other,
    getFile (delete s digest) other = if other = digest then none else getFile s other

/-- `FSBackend`: the files of a directory, by name. -/
def fsBackend : Backend where
  State := String → Option Bytes
  getFile files digest := files digest
  isStored files digest := (files digest).isSome
  commitFile files digest content :=
    -- The temporary file is renamed, or removed when someone was faster.
    if (files digest).isSome then files else Function.update files digest (some content)
  delete files digest := Function.update files digest none
  isStored_eq _ _ := rfl
  getFile_commitFile files digest content other := by
    cases hfile : files digest with
    | none =>
        by_cases hother : other = digest
        · simp [hother]
        · simp [hother]
    | some present =>
        by_cases hother : other = digest
        · simp [hother, hfile]
        · simp [hother]
  getFile_delete files digest other := by
    by_cases hother : other = digest
    · simp [hother]
    · simp [hother]

/-- The large objects and the rows of `FSObject`.  Every row has its own large object. -/
structure LargeObjects where
  rows : String → Option Nat
  objects : Nat → Option Bytes
  /-- The next id of a large object. -/
  next : Nat
  present : ∀ digest loid, rows digest = some loid → (objects loid).isSome = true
  below : ∀ digest loid, rows digest = some loid → loid < next
  distinct : ∀ digest other loid, rows digest = some loid → rows other = some loid → digest = other

namespace LargeObjects

def getFile (s : LargeObjects) (digest : String) : Option Bytes := (s.rows digest).bind s.objects

/-- `commit_file` of `DBBackend`: the large object is committed first, and dropped again when there
is a row already. -/
def commitFile (s : LargeObjects) (digest : String) (content : Bytes) : LargeObjects :=
  match hrow : s.rows digest with
  | some _ =>
      { s with
        objects := Function.update s.objects s.next none
        next := s.next + 1
        present := by
          intro other loid hother
          have hne : loid ≠ s.next := Nat.ne_of_lt (s.below other loid hother)
          rw [Function.update_of_ne hne]
          exact s.present other loid hother
        below := fun other loid hother => Nat.lt_succ_of_lt (s.below other loid hother) }
  | none =>
      { rows := Function.update s.rows digest (some s.next)
        objects := Function.update s.objects s.next (some content)
        next := s.next + 1
        present := by
          intro other loid hother
          by_cases hsame : other = digest
          · rw [hsame, Function.update_self, Option.some.injEq] at hother
            rw [← hother, Function.update_self]
            rfl
          · rw [Function.update_of_ne hsame] at hother
            have hne : loid ≠ s.next := Nat.ne_of_lt (s.below other loid hother)
            rw [Function.update_of_ne hne]
            exact s.present other loid hother
        below := by
          intro other loid hother
          by_cases hsame : other = digest
          · rw [hsame, Function.update_self, Option.some.injEq] at hother
            rw [← hother]
            exact Nat.lt_succ_self _
          · rw [Function.update_of_ne hsame] at hother
            exact Nat.lt_succ_of_lt (s.below other loid hother)
        distinct := by
          intro first second loid hfirst hsecond
          by_cases hsame : first = digest
          · by_cases hsame' : second = digest
            · rw [hsame, hsame']
            · rw [hsame, Function.update_self, Option.some.injEq] at hfirst
              rw [Function.update_of_ne hsame', ← hfirst] at hsecond
              exact absurd (s.below second s.next hsecond) (lt_irrefl _)
          · rw [Function.update_of_ne hsame] at hfirst
            by_cases hsame' : second = digest
            · rw [hsame', Function.update_self, Option.some.injEq] at hsecond
              rw [← hsecond] at hfirst
              exact absurd (s.below first s.next hfirst) (lt_irrefl _)
            · rw [Function.update_of_ne hsame'] at hsecond
              exact s.distinct first second loid hfirst hsecond }

/-- `delete` of `DBBackend`: the large object and the row. -/
def delete (s : LargeObjects) (digest : String) : LargeObjects :=
  match hrow : s.rows digest with
  | none => s
  | some loid =>
      { s with
        rows := Function.update s.rows digest none
        objects := Function.update s.objects loid none
        present := by
          intro other loid' hother
          by_cases hsame : other = digest
          · rw [hsame, Function.update_self] at hother
            cases hother
          · rw [Function.update_of_ne hsame] at hother
            have hne : loid' ≠ loid := by
              rintro rfl
              exact hsame (s.distinct other digest loid' hother hrow)
            rw [Function.update_of_ne hne]
            exact s.present other loid' hother
        below := by
          intro other loid' hother
          by_cases hsame : other = digest
          · rw [hsame, Function.update_self] at hother
            cases hother
          · rw [Function.update_of_ne hsame] at hother
            exact s.below other loid' hother
        distinct := by
          intro first second loid' hfirst hsecond
          by_cases hsame : first = digest
          · rw [hsame, Function.update_self] at hfirst
            cases hfirst
          · by_cases hsame' : second = digest
            · rw [hsame', Function.update_self] at hsecond
              cases hsecond
            · rw [Function.update_of_ne hsame] at hfirst
              rw [Function.update_of_ne hsame'] at hsecond
              exact s.distinct first second loid' hfirst hsecond }

theorem getFile_isSome (s : LargeObjects) (digest : String) :
    (s.getFile digest).isSome = (s.rows digest).isSome := by
  rw [getFile]
  cases hrow : s.rows digest with
  | none => rfl
  | some loid => exact s.present digest loid hrow

theorem getFile_commitFile (s : LargeObjects) (digest : String) (content : Bytes) (other : String) :
    (s.commitFile digest content).getFile other =
      if other = digest then some ((s.getFile digest).getD content) else s.getFile other := by
  have hkept : ∀ (objects : Nat → Option Bytes) (value : Option Bytes),
      (s.rows other).bind (Function.update objects s.next value) = (s.rows other).bind objects := by
    intro objects value
    cases hother : s.rows other with
    | none => rfl
    | some loid =>
        have hne : loid ≠ s.next := Nat.ne_of_lt (s.below other loid hother)
        rw [Option.bind_some, Option.bind_some, Function.update_of_ne hne]
  unfold commitFile
  split
  · rename_i loid hrow
    rw [getFile, hkept]
    by_cases hsame : other = digest
    · rw [if_pos hsame, hsame, getFile, hrow, Option.bind_some]
      obtain ⟨present, hpresent⟩ := Option.isSome_iff_exists.1 (s.present digest loid hrow)
      rw [hpresent]
      rfl
    · rw [if_neg hsame, getFile]
  · rename_i hrow
    by_cases hsame : other = digest
    · rw [if_pos hsame, hsame]
      simp [getFile, hrow]
    · rw [if_neg hsame, getFile, getFile]
      dsimp only
      rw [Function.update_of_ne hsame, hkept]

theorem getFile_delete (s : LargeObjects) (digest other : String) :
    (s.delete digest).getFile other = if other = digest then none else s.getFile other := by
  unfold delete
  split
  · rename_i hrow
    by_cases hsame : other = digest
    · rw [if_pos hsame, hsame, getFile, hrow]
      rfl
    · rw [if_neg hsame]
  · rename_i loid hrow
    by_cases hsame : other = digest
    · simp [getFile, hsame]
    · rw [if_neg hsame, getFile, getFile]
      dsimp only
      rw [Function.update_of_ne hsame]
      cases hother : s.rows other with
      | none => rfl
      | some loid' =>
          have hne : loid' ≠ loid := by
            rintro rfl
            exact hsame (s.distinct other digest loid' hother hrow)
          rw [Option.bind_some, Option.bind_some, Function.update_of_ne hne]

end LargeObjects

/-- `DBBackend`. -/
def dbBackend : Backend where
  State := LargeObjects
  getFile := LargeObjects.getFile
  isStored s digest := (s.rows digest).isSome
  commitFile := LargeObjects.commitFile
  delete := LargeObjects.delete
  isStored_eq s digest := (s.getFile_isSome digest).symm
  getFile_commitFile := LargeObjects.getFile_commitFile
  getFile_delete := LargeObjects.getFile_delete

/-! ## Operations -/

/-- A file object that is copied to another one: what is still to be read, what is read but not
written, and what is written. -/
structure Copy where
  rest : Bytes
  buffer : Bytes
  written : Bytes
  deriving DecidableEq

namespace Copy

def ofFile (content : Bytes) : Copy := ⟨content, [], []⟩

/-- The next call of `copyfileobj`, of which up to `count + 1` bytes are read or written; nothing
at the end of the file. -/
def step (c : Copy) (count : Nat) : Option Copy :=
  if c.buffer ≠ [] then
    some { c with
      buffer := c.buffer.drop (count + 1)
      written := c.written ++ c.buffer.take (count + 1) }
  else if c.rest ≠ [] then
    some { c with rest := c.rest.drop (count + 1), buffer := c.rest.take (count + 1) }
  else none

/-- All of the file. -/
def content (c : Copy) : Bytes := c.written ++ c.buffer ++ c.rest

end Copy

/-- The calls of a cacher. -/
inductive Call
  | get (digest : String)
  | cacheFile (digest : String)
  | put (content : Bytes)
  | drop (digest : String)
  | delete (digest : String)
  deriving DecidableEq

/-- Where a call is. -/
inductive Phase
  /-- `_load` looks into the cache. -/
  | looking
  /-- `_load` asks the backend. -/
  | requesting
  | downloading (copy : Copy)
  /-- The temporary file is complete, and is opened for reading before it is moved. -/
  | opening (content : Bytes)
  | moving (content : Bytes)
  /-- `put_file_from_fobj` reads its source into a temporary file. -/
  | reading (copy : Copy)
  | creating (temp : Bytes)
  | uploading (temp : Bytes) (copy : Copy)
  | committing (temp uploaded : Bytes)
  | publishing (temp : Bytes)
  /-- The file of the cache is unlinked. -/
  | unlinking
  /-- The backend deletes. -/
  | deleting
  | returned (content : Option Bytes)
  /-- `KeyError`. -/
  | notFound
  /-- `TombstoneError`. -/
  | tombstoned
  /-- The call failed or was killed. -/
  | failed
  deriving DecidableEq

namespace Phase

/-- The call is over. -/
def isOver : Phase → Bool
  | returned _ | notFound | tombstoned | failed => true
  | _ => false

/-- The call has returned. -/
def isReturned : Phase → Bool
  | returned _ => true
  | _ => false

end Phase

namespace Call

/-- Where a call starts. -/
def start : Call → Phase
  | get _ | cacheFile _ => .looking
  | put content => .reading (Copy.ofFile content)
  | drop _ | delete _ => .unlinking

/-- A delete of a digest. -/
def isDelete (digest : String) : Call → Bool
  | delete other => other = digest
  | _ => false

end Call

/-- A call that was made.  The last two fields are for the record: whether no delete of the digest
of a put was running when it began, and the calls that had returned before. -/
structure Operation where
  call : Call
  phase : Phase
  quiet : Bool
  returnedBefore : List Nat
  deriving DecidableEq

variable (B : Backend) (hash : Bytes → String)

/-- The files, and the calls in the order in which they were made. -/
structure Files where
  store : B.State
  cache : String → Option Bytes
  operations : List Operation

inductive FileAction
  /-- A service makes a call. -/
  | begin (call : Call)
  /-- The next step of a call. -/
  | advance (index count : Nat)
  | fail (index : Nat)
  /-- Someone removes a file of the cache. -/
  | removeCached (digest : String)
  deriving DecidableEq

namespace Files

variable {B}

/-- No delete of a digest is running. -/
def noDelete (operations : List Operation) (digest : String) : Bool :=
  operations.all fun op => op.phase.isOver || !op.call.isDelete digest

/-- The calls that have returned. -/
def returnedCalls (operations : List Operation) : List Nat :=
  (List.range operations.length).filter fun index =>
    (operations[index]?).any fun op => op.phase.isReturned

/-- The record of a call that begins. -/
def newOperation (operations : List Operation) (call : Call) : Operation where
  call := call
  phase := call.start
  quiet := match call with
    | .put content => noDelete operations (hash content)
    | _ => true
  returnedBefore := returnedCalls operations

/-- The step of `_load`, for a file object or only for the cache. -/
def load (s : Files B) (digest : String) (cacheOnly : Bool) (count : Nat) :
    Phase → Option (Files B × Phase)
  | .looking =>
      if digest = tombstone then some (s, .tombstoned)
      else match s.cache digest with
        | some content => some (s, .returned (if cacheOnly then none else some content))
        | none => some (s, .requesting)
  | .requesting =>
      match B.getFile s.store digest with
      | some content => some (s, .downloading (Copy.ofFile content))
      | none => some (s, .notFound)
  | .downloading copy =>
      match copy.step count with
      | some copy => some (s, .downloading copy)
      | none => some (s, if cacheOnly then .moving copy.written else .opening copy.written)
  | .opening content => some (s, .moving content)
  | .moving content =>
      some ({ s with cache := Function.update s.cache digest (some content) },
        .returned (if cacheOnly then none else some content))
  | _ => none

/-- The step of `put_file_from_fobj`. -/
def putFileFromFobj (s : Files B) (count : Nat) : Phase → Option (Files B × Phase)
  | .reading copy =>
      match copy.step count with
      | some copy => some (s, .reading copy)
      | none => some (s, .creating copy.written)
  | .creating temp =>
      if B.isStored s.store (hash temp) then some (s, .publishing temp)
      else some (s, .uploading temp (Copy.ofFile temp))
  | .uploading temp copy =>
      match copy.step count with
      | some copy => some (s, .uploading temp copy)
      | none => some (s, .committing temp copy.written)
  | .committing temp uploaded =>
      some ({ s with store := B.commitFile s.store (hash temp) uploaded }, .publishing temp)
  | .publishing temp =>
      some ({ s with cache := Function.update s.cache (hash temp) (some temp) }, .returned none)
  | _ => none

/-- The step of `drop` and of `delete`. -/
def remove (s : Files B) (digest : String) (everywhere : Bool) : Phase → Option (Files B × Phase)
  | .unlinking =>
      if digest = tombstone then some (s, .returned none)
      else
        some ({ s with cache := Function.update s.cache digest none },
          if everywhere then .deleting else .returned none)
  | .deleting => some ({ s with store := B.delete s.store digest }, .returned none)
  | _ => none

/-- The next step of a call. -/
def callStep (s : Files B) (count : Nat) : Call → Phase → Option (Files B × Phase)
  | .get digest => s.load digest false count
  | .cacheFile digest => s.load digest true count
  | .put _ => s.putFileFromFobj hash count
  | .drop digest => s.remove digest false
  | .delete digest => s.remove digest true

/-- A call comes to a phase. -/
def setPhase (s : Files B) (index : Nat) (op : Operation) (phase : Phase) : Files B :=
  { s with operations := s.operations.set index { op with phase } }

def step (s : Files B) : FileAction → Option (Files B)
  | .begin call =>
      some { s with operations := s.operations ++ [newOperation hash s.operations call] }
  | .advance index count =>
      match s.operations[index]? with
      | none => none
      | some op => (s.callStep hash count op.call op.phase).map fun next =>
          next.1.setPhase index op next.2
  | .fail index =>
      match s.operations[index]? with
      | none => none
      | some op => if op.phase.isOver then none else some (s.setPhase index op .failed)
  | .removeCached digest => some { s with cache := Function.update s.cache digest none }

end Files

/-- The runs of the calls; at the start all files are where their digest says. -/
def fileMachine : Machine (Files B) FileAction where
  init := fun s => s.operations = [] ∧
    (∀ digest content, s.cache digest = some content → hash content = digest) ∧
    ∀ digest content, B.getFile s.store digest = some content → hash content = digest
  step := Files.step hash

end Db
end ContestManagement
