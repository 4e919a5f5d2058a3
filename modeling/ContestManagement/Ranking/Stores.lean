import Mathlib.Data.List.Sort
import Mathlib.Data.String.Basic
import ContestManagement.Lib.Machine
import ContestManagement.Ranking.Score

/-!
# The stores of a ranking and their scores

`ScoringStore` keeps a `Score` for each user and task and is told by the stores of the
submissions and the subchanges what is created, updated and deleted.  It is a dictionary
keyed by user and task here; nothing reads the order of the users or of their tasks.

`Store` is the same code for the six kinds of entities: `create`, `update` and `merge_list`
check the data and its references before they change anything, and `delete` goes down
through the stores that depend on this one.  An operation that returns or raises
`InvalidKey` or `InvalidData` is a step; one that lets an exception of a callback out is
not.  The events for the viewers and the files on disk are left out.
-/

namespace ContestManagement
namespace Ranking

open Lib

/-- The scores of the users for the tasks. -/
abbrev Scoring : Type := Dict (String × String) Score

namespace Scoring

/-- `self._scores[user][task]`. -/
def find (scoring : Scoring) (user task : String) : Except PyError Score :=
  match scoring.get? (user, task) with
  | some sc => .ok sc
  | none => .error (.keyError user)

/-- `self.submission_store._store[key]`. -/
def submissionOf (stores : Stores) (key : String) : Except PyError Submission :=
  match (stores .submission).get? key with
  | some s => .ok s
  | none => .error (.keyError key)

/-- The score mode of a stored task. -/
def scoreModeOf (stores : Stores) (task : String) : Except PyError String :=
  match (stores .task).get? task with
  | some t => .ok t.scoreMode
  | none => .error (.keyError task)

/-- The score of a user for a task, a new one if there is none. -/
def findOrNew (stores : Stores) (scoring : Scoring) (user task : String) : Except PyError Score :=
  match scoring.get? (user, task) with
  | some sc => .ok sc
  | none => Score.new <$> scoreModeOf stores task

def createSubmission (stores : Stores) (scoring : Scoring) (key : String) (s : Submission) :
    Except PyError Scoring := do
  let sc ← scoring.findOrNew stores s.user s.task
  return scoring.set (s.user, s.task) (sc.createSubmission key s)

/-- A score without submissions is deleted. -/
def deleteSubmission (scoring : Scoring) (key : String) (s : Submission) :
    Except PyError Scoring := do
  let sc ← scoring.find s.user s.task
  let sc ← sc.deleteSubmission key
  return if sc.submissions.items = [] then scoring.erase (s.user, s.task)
    else scoring.set (s.user, s.task) sc

def updateSubmission (stores : Stores) (scoring : Scoring) (key : String) (old s : Submission) :
    Except PyError Scoring :=
  -- A submission that moves leaves its subchanges behind.
  if old.user ≠ s.user ∨ old.task ≠ s.task then do
    let scoring ← scoring.deleteSubmission key old
    createSubmission stores scoring key s
  else do
    let scoreMode ← scoreModeOf stores s.task
    let sc ← scoring.find s.user s.task
    let sc ← sc.updateSubmission key s
    return scoring.set (s.user, s.task) (sc.updateScoreMode scoreMode)

/-- Change the score that a submission belongs to. -/
def modifyAt (stores : Stores) (scoring : Scoring) (submission : String)
    (f : Score → Except PyError Score) : Except PyError Scoring := do
  let s ← submissionOf stores submission
  let sc ← scoring.find s.user s.task
  let sc ← f sc
  return scoring.set (s.user, s.task) sc

def createSubchange (stores : Stores) (scoring : Scoring) (key : String) (c : Subchange) :
    Except PyError Scoring :=
  modifyAt stores scoring c.submission fun sc => sc.createSubchange key c

def deleteSubchange (stores : Stores) (scoring : Scoring) (key : String) (c : Subchange) :
    Except PyError Scoring :=
  -- The submission has just been deleted: its own callback cleans up.
  if stores.has .submission c.submission = false then .ok scoring
  else modifyAt stores scoring c.submission fun sc => sc.deleteSubchange key

def updateSubchange (stores : Stores) (scoring : Scoring) (key : String) (old c : Subchange) :
    Except PyError Scoring :=
  if old.submission ≠ c.submission then do
    let scoring ← scoring.deleteSubchange stores key old
    createSubchange stores scoring key c
  else modifyAt stores scoring c.submission fun sc => sc.updateSubchange key c

/-- The items of a dictionary in the order of their keys. -/
def sortedItems {β : Type} (d : Dict String β) : List (String × β) :=
  d.items.insertionSort fun a b => a.1 ≤ b.1

/-- `init_store`: the scores from the stores, as after a restart. -/
def initStore (stores : Stores) : Except PyError Scoring := do
  let scoring ← (stores .submission).items.foldlM
    (fun scoring item => createSubmission stores scoring item.1 item.2) Dict.empty
  (sortedItems (stores .subchange)).foldlM
    (fun scoring item => createSubchange stores scoring item.1 item.2) scoring

end Scoring

/-! ## The operations of a store -/

/-- The stores of a ranking with the scores. -/
structure State where
  stores : Stores
  scoring : Scoring

/-- How an operation fails: it is refused, or an exception comes out of a callback. -/
inductive Raised
  | invalidKey (message : String)
  | invalidData (message : String)
  | crashed (error : PyError)
  deriving DecidableEq

/-- An operation on the store of a kind. -/
inductive Op
  | create (k : Kind) (key : String) (data : PyValue)
  | update (k : Kind) (key : String) (data : PyValue)
  | mergeList (k : Kind) (data : PyValue)
  | delete (k : Kind) (key : String)
  | deleteList (k : Kind)

/-- `re.fullmatch('[A-Za-z0-9_]+', key)`. -/
def validKey (key : String) : Bool :=
  key ≠ "" && key.toList.all fun c =>
    ('A' ≤ c && c ≤ 'Z') || ('a' ≤ c && c ≤ 'z') || ('0' ≤ c && c ≤ '9') || c = '_'

namespace State

def empty : State := ⟨Stores.empty, Dict.empty⟩

/-- An exception that comes out of a callback. -/
def callback (r : State) (scoring : Except PyError Scoring) : Except Raised State :=
  match scoring with
  | .ok scoring => .ok { r with scoring := scoring }
  | .error e => .error (.crashed e)

def onCreate (r : State) : (k : Kind) → String → Data k → Except Raised State
  | .submission, key, s => r.callback (r.scoring.createSubmission r.stores key s)
  | .subchange, key, c => r.callback (r.scoring.createSubchange r.stores key c)
  | _, _, _ => .ok r

def onUpdate (r : State) : (k : Kind) → String → Data k → Data k → Except Raised State
  | .submission, key, old, s => r.callback (r.scoring.updateSubmission r.stores key old s)
  | .subchange, key, old, c => r.callback (r.scoring.updateSubchange r.stores key old c)
  | _, _, _, _ => .ok r

def onDelete (r : State) : (k : Kind) → String → Data k → Except Raised State
  | .submission, key, s => r.callback (r.scoring.deleteSubmission key s)
  | .subchange, key, c => r.callback (r.scoring.deleteSubchange r.stores key c)
  | _, _, _ => .ok r

/-- Set an entity in its store, and tell the callbacks. -/
def insert (r : State) (k : Kind) (key : String) (e : Data k) : Except Raised State :=
  let stored : State := { r with stores := r.stores.put k ((r.stores k).set key e) }
  match (r.stores k).get? key with
  | none => stored.onCreate k key e
  | some old => stored.onUpdate k key old e

/-- An entity from the data of a request, consistent with the stores. -/
def validated (r : State) (k : Kind) (data : PyValue) : Except String (Data k) := do
  let e ← Data.set k data
  if Data.consistent r.stores k e then return e else throw "Inconsistent data"

/-- Refuse with `InvalidData`. -/
def refuseData {β : Type} (result : Except String β) : Except Raised β :=
  match result with
  | .ok b => .ok b
  | .error message => .error (.invalidData message)

def create (r : State) (k : Kind) (key : String) (data : PyValue) : Except Raised State :=
  if !validKey key then .error (.invalidKey "Invalid key.")
  else if r.stores.has k key then .error (.invalidKey "Key already in store.")
  else do
    let e ← refuseData (r.validated k data)
    r.insert k key e

def update (r : State) (k : Kind) (key : String) (data : PyValue) : Except Raised State :=
  if !r.stores.has k key then .error (.invalidKey "Key not in store.")
  else do
    let e ← refuseData (r.validated k data)
    r.insert k key e

/-- One entity of the data of `merge_list`. -/
def validatedEntity (r : State) (k : Kind) (item : String × PyValue) :
    Except String (String × Data k) :=
  let result := if validKey item.1 then r.validated k item.2 else .error "Invalid key"
  match result with
  | .ok e => .ok (item.1, e)
  | .error message => .error ("[entity " ++ item.1 ++ "] " ++ message)

/-- The entities of the data of `merge_list`. -/
def entitiesOf (r : State) (k : Kind) (data : PyValue) : Except String (Dict String (Data k)) :=
  match data with
  | .dict items => do
      let entities ← items.mapM (r.validatedEntity k)
      return entities.foldl (fun d item => d.set item.1 item.2) Dict.empty
  | _ => .error "Not a dictionary"

/-- All the entities are validated before the first one is set. -/
def mergeList (r : State) (k : Kind) (data : PyValue) : Except Raised State := do
  let entities ← refuseData (r.entitiesOf k data)
  entities.items.foldlM (fun r item => r.insert k item.1 item.2) r

/-- `delete`, with the number of stores it may still go down through. -/
def cascade : Nat → State → (k : Kind) → String → Except Raised State
  | depth, r, k, key =>
      match (r.stores k).get? key with
      | none => .error (.invalidKey "Key not in store.")
      | some old => do
          let removed : State := { r with stores := r.stores.put k ((r.stores k).erase key) }
          let r ← match depth with
            | 0 => .ok removed
            | depth + 1 =>
                k.depends.foldlM (fun r d =>
                  (r.stores d).items.foldlM (fun r item =>
                    if Data.consistent r.stores d item.2 then .ok r
                    else cascade depth r d item.1) r) removed
          r.onDelete k key old

def delete (r : State) (k : Kind) (key : String) : Except Raised State :=
  cascade k.level r k key

def deleteList (r : State) (k : Kind) : Except Raised State :=
  (r.stores k).keys.foldlM (fun r key => r.delete k key) r

def run (r : State) : Op → Except Raised State
  | .create k key data => r.create k key data
  | .update k key data => r.update k key data
  | .mergeList k data => r.mergeList k data
  | .delete k key => r.delete k key
  | .deleteList k => r.deleteList k

/-- The state after an operation that succeeds or is refused. -/
def step (r : State) (op : Op) : Option State :=
  match r.run op with
  | .ok r' => some r'
  | .error (.crashed _) => none
  | .error _ => some r

end State

/-- The ranking, from empty stores. -/
def rankingMachine : Machine State Op where
  init r := r = State.empty
  step := State.step

end Ranking
end ContestManagement
