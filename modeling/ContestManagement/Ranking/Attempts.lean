import ContestManagement.Lib.Attempt
import ContestManagement.Ranking.Integrity

/-!
# What an operation on a store leaves when it raises

The operations of `Score`, `ScoringStore` and `Store` once more, with the state they leave when
an exception comes out of them.  The objects are changed in place: a `Score` whose change could
not be valued keeps the change, and an entity whose callback raises is in its store already.
Only the checks before the first change leave everything as it was.

Each operation here has the outcome of the one it is named after.  `attemptMachine` goes on
from whatever an operation leaves.
-/

namespace ContestManagement
namespace Ranking

open Lib

/-! ## A score -/

namespace Score

/-- The change is made before the score is computed. -/
def tryAppendChange (sc : Score) (change : Subchange) : Attempt PyError Score :=
  .read sc (sc.applyChange change) fun sc =>
    .read sc sc.value fun score => .done (sc.note change.time score)

def tryResetHistory (sc : Score) : Attempt PyError Score :=
  .each (fun sc change => sc.tryAppendChange change.2) sc.changes sc.cleared

def tryLogged (sc : Score) (change : Subchange) : Attempt PyError Score :=
  .read sc (sc.logged change) .done

def tryCreateSubchange (sc : Score) (key : String) (change : Subchange) : Attempt PyError Score :=
  if sc.isNewest (key, change) then
    { sc with changes := sc.changes ++ [(key, change)] }.tryAppendChange change
  else
    { sc with changes := insertChange (key, change) sc.changes }.tryResetHistory.andThen fun sc =>
      sc.tryLogged change

def tryUpdateSubchange (sc : Score) (key : String) (change : Subchange) : Attempt PyError Score :=
  let replaced := sc.changes.map fun c => if c.1 = key then (key, change) else c
  { sc with changes := replaced }.tryResetHistory.andThen fun sc => sc.tryLogged change

def tryDeleteSubchange (sc : Score) (key : String) : Attempt PyError Score :=
  { sc with changes := sc.changes.filter fun c => c.1 ≠ key }.tryResetHistory

def tryUpdateSubmission (sc : Score) (key : String) (s : Submission) : Attempt PyError Score :=
  { sc with submissions := sc.submissions.set key (Scored.unscored s) }.tryResetHistory

def tryDeleteSubmission (sc : Score) (key : String) : Attempt PyError Score :=
  match sc.submissions.get? key with
  | none => .done sc
  | some _ =>
      { sc with
        submissions := sc.submissions.erase key
        changes := sc.changes.filter fun c => c.2.submission ≠ key }.tryResetHistory

variable (sc : Score) (key : String) (change : Subchange)

theorem outcome_tryAppendChange : (sc.tryAppendChange change).outcome = sc.appendChange change := by
  unfold tryAppendChange appendChange
  rw [Attempt.outcome_read]
  refine congrArg (bind (sc.applyChange change)) (funext fun mid => ?_)
  rw [Attempt.outcome_read]
  rfl

theorem outcome_tryResetHistory : sc.tryResetHistory.outcome = sc.resetHistory := by
  unfold tryResetHistory resetHistory appendChanges
  rw [Attempt.outcome_each]
  simp only [outcome_tryAppendChange]

theorem outcome_tryLogged : (sc.tryLogged change).outcome = sc.logged change := by
  unfold tryLogged
  rw [Attempt.outcome_read]
  cases sc.logged change with
  | error e => rfl
  | ok sc' => rfl

theorem outcome_tryCreateSubchange :
    (sc.tryCreateSubchange key change).outcome = sc.createSubchange key change := by
  unfold tryCreateSubchange createSubchange
  split
  case isTrue => exact outcome_tryAppendChange _ change
  case isFalse =>
    rw [Attempt.outcome_andThen, outcome_tryResetHistory]
    simp only [outcome_tryLogged]

theorem outcome_tryUpdateSubchange :
    (sc.tryUpdateSubchange key change).outcome = sc.updateSubchange key change := by
  unfold tryUpdateSubchange updateSubchange
  dsimp only
  rw [Attempt.outcome_andThen, outcome_tryResetHistory]
  simp only [outcome_tryLogged]

theorem outcome_tryDeleteSubchange :
    (sc.tryDeleteSubchange key).outcome = sc.deleteSubchange key :=
  outcome_tryResetHistory _

theorem outcome_tryUpdateSubmission (s : Submission) :
    (sc.tryUpdateSubmission key s).outcome = sc.updateSubmission key s :=
  outcome_tryResetHistory _

theorem outcome_tryDeleteSubmission :
    (sc.tryDeleteSubmission key).outcome = sc.deleteSubmission key := by
  unfold tryDeleteSubmission deleteSubmission
  cases sc.submissions.get? key with
  | none => rfl
  | some s => exact outcome_tryResetHistory _

end Score

/-! ## The scores -/

namespace Scoring

/-- A new score is there only when its task could be read. -/
def tryCreateSubmission (stores : Stores) (scoring : Scoring) (key : String) (s : Submission) :
    Attempt PyError Scoring :=
  .read scoring (scoring.createSubmission stores key s) .done

/-- A score without submissions is deleted, unless the exception came first. -/
def tryDeleteSubmission (scoring : Scoring) (key : String) (s : Submission) :
    Attempt PyError Scoring :=
  .read scoring (scoring.find s.user s.task) fun sc =>
    (sc.tryDeleteSubmission key).into
      (fun sc => if sc.submissions.items = [] then scoring.erase (s.user, s.task)
        else scoring.set (s.user, s.task) sc)
      (scoring.set (s.user, s.task))

def tryUpdateSubmission (stores : Stores) (scoring : Scoring) (key : String)
    (old s : Submission) : Attempt PyError Scoring :=
  if old.user ≠ s.user ∨ old.task ≠ s.task then
    (scoring.tryDeleteSubmission key old).andThen fun scoring =>
      scoring.tryCreateSubmission stores key s
  else
    .read scoring (scoreModeOf stores s.task) fun scoreMode =>
      .read scoring (scoring.find s.user s.task) fun sc =>
        -- The score mode is set after the reset.
        (sc.tryUpdateSubmission key s).into
          (fun sc => scoring.set (s.user, s.task) (sc.updateScoreMode scoreMode))
          (scoring.set (s.user, s.task))

def tryModifyAt (stores : Stores) (scoring : Scoring) (submission : String)
    (f : Score → Attempt PyError Score) : Attempt PyError Scoring :=
  .read scoring (submissionOf stores submission) fun s =>
    .read scoring (scoring.find s.user s.task) fun sc =>
      (f sc).into (scoring.set (s.user, s.task)) (scoring.set (s.user, s.task))

def tryCreateSubchange (stores : Stores) (scoring : Scoring) (key : String) (c : Subchange) :
    Attempt PyError Scoring :=
  scoring.tryModifyAt stores c.submission fun sc => sc.tryCreateSubchange key c

def tryDeleteSubchange (stores : Stores) (scoring : Scoring) (key : String) (c : Subchange) :
    Attempt PyError Scoring :=
  if stores.has .submission c.submission = false then .done scoring
  else scoring.tryModifyAt stores c.submission fun sc => sc.tryDeleteSubchange key

def tryUpdateSubchange (stores : Stores) (scoring : Scoring) (key : String) (old c : Subchange) :
    Attempt PyError Scoring :=
  if old.submission ≠ c.submission then
    (scoring.tryDeleteSubchange stores key old).andThen fun scoring =>
      scoring.tryCreateSubchange stores key c
  else scoring.tryModifyAt stores c.submission fun sc => sc.tryUpdateSubchange key c

variable (stores : Stores) (scoring : Scoring) (key : String)

theorem outcome_tryCreateSubmission (s : Submission) :
    (scoring.tryCreateSubmission stores key s).outcome =
      scoring.createSubmission stores key s := by
  unfold tryCreateSubmission
  rw [Attempt.outcome_read]
  cases scoring.createSubmission stores key s with
  | error e => rfl
  | ok scoring' => rfl

theorem outcome_tryDeleteSubmission (s : Submission) :
    (scoring.tryDeleteSubmission key s).outcome = scoring.deleteSubmission key s := by
  unfold tryDeleteSubmission deleteSubmission
  rw [Attempt.outcome_read]
  refine congrArg (bind (scoring.find s.user s.task)) (funext fun sc => ?_)
  rw [Attempt.outcome_into, Score.outcome_tryDeleteSubmission]
  rfl

theorem outcome_tryUpdateSubmission (old s : Submission) :
    (scoring.tryUpdateSubmission stores key old s).outcome =
      scoring.updateSubmission stores key old s := by
  unfold tryUpdateSubmission updateSubmission
  split
  case isTrue =>
    rw [Attempt.outcome_andThen, outcome_tryDeleteSubmission]
    simp only [outcome_tryCreateSubmission]
  case isFalse =>
    rw [Attempt.outcome_read]
    refine congrArg (bind (scoreModeOf stores s.task)) (funext fun scoreMode => ?_)
    rw [Attempt.outcome_read]
    refine congrArg (bind (scoring.find s.user s.task)) (funext fun sc => ?_)
    rw [Attempt.outcome_into, Score.outcome_tryUpdateSubmission]
    rfl

theorem outcome_tryModifyAt (submission : String) {f : Score → Attempt PyError Score}
    {g : Score → Except PyError Score} (hsame : ∀ sc, (f sc).outcome = g sc) :
    (scoring.tryModifyAt stores submission f).outcome = scoring.modifyAt stores submission g := by
  unfold tryModifyAt modifyAt
  rw [Attempt.outcome_read]
  refine congrArg (bind (submissionOf stores submission)) (funext fun s => ?_)
  rw [Attempt.outcome_read]
  refine congrArg (bind (scoring.find s.user s.task)) (funext fun sc => ?_)
  rw [Attempt.outcome_into, hsame]
  rfl

theorem outcome_tryCreateSubchange (c : Subchange) :
    (scoring.tryCreateSubchange stores key c).outcome = scoring.createSubchange stores key c :=
  outcome_tryModifyAt stores scoring c.submission fun sc => sc.outcome_tryCreateSubchange key c

theorem outcome_tryDeleteSubchange (c : Subchange) :
    (scoring.tryDeleteSubchange stores key c).outcome = scoring.deleteSubchange stores key c := by
  unfold tryDeleteSubchange deleteSubchange
  split
  case isTrue => rfl
  case isFalse =>
    exact outcome_tryModifyAt stores scoring c.submission fun sc => sc.outcome_tryDeleteSubchange key

theorem outcome_tryUpdateSubchange (old c : Subchange) :
    (scoring.tryUpdateSubchange stores key old c).outcome =
      scoring.updateSubchange stores key old c := by
  unfold tryUpdateSubchange updateSubchange
  split
  case isTrue =>
    rw [Attempt.outcome_andThen, outcome_tryDeleteSubchange]
    simp only [outcome_tryCreateSubchange]
  case isFalse =>
    exact outcome_tryModifyAt stores scoring c.submission fun sc => sc.outcome_tryUpdateSubchange key c

end Scoring

/-! ## The stores -/

namespace State

/-- A callback changes the scores in place. -/
def tryCallback (r : State) (a : Attempt PyError Scoring) : Attempt Raised State :=
  (a.mapRaised Raised.crashed).into (fun scoring => { r with scoring := scoring })
    (fun scoring => { r with scoring := scoring })

def tryOnCreate (r : State) : (k : Kind) → String → Data k → Attempt Raised State
  | .submission, key, s => r.tryCallback (r.scoring.tryCreateSubmission r.stores key s)
  | .subchange, key, c => r.tryCallback (r.scoring.tryCreateSubchange r.stores key c)
  | _, _, _ => .done r

def tryOnUpdate (r : State) : (k : Kind) → String → Data k → Data k → Attempt Raised State
  | .submission, key, old, s => r.tryCallback (r.scoring.tryUpdateSubmission r.stores key old s)
  | .subchange, key, old, c => r.tryCallback (r.scoring.tryUpdateSubchange r.stores key old c)
  | _, _, _, _ => .done r

def tryOnDelete (r : State) : (k : Kind) → String → Data k → Attempt Raised State
  | .submission, key, s => r.tryCallback (r.scoring.tryDeleteSubmission key s)
  | .subchange, key, c => r.tryCallback (r.scoring.tryDeleteSubchange r.stores key c)
  | _, _, _ => .done r

/-- The entity is in its store when the callbacks are told. -/
def tryInsert (r : State) (k : Kind) (key : String) (e : Data k) : Attempt Raised State :=
  let stored : State := { r with stores := r.stores.put k ((r.stores k).set key e) }
  match (r.stores k).get? key with
  | none => stored.tryOnCreate k key e
  | some old => stored.tryOnUpdate k key old e

def tryCreate (r : State) (k : Kind) (key : String) (data : PyValue) : Attempt Raised State :=
  if !validKey key then .fail r (.invalidKey "Invalid key.")
  else if r.stores.has k key then .fail r (.invalidKey "Key already in store.")
  else .read r (refuseData (r.validated k data)) fun e => r.tryInsert k key e

def tryUpdate (r : State) (k : Kind) (key : String) (data : PyValue) : Attempt Raised State :=
  if !r.stores.has k key then .fail r (.invalidKey "Key not in store.")
  else .read r (refuseData (r.validated k data)) fun e => r.tryInsert k key e

/-- The entities before the one whose callback raises stay in the store too. -/
def tryMergeList (r : State) (k : Kind) (data : PyValue) : Attempt Raised State :=
  .read r (refuseData (r.entitiesOf k data)) fun entities =>
    .each (fun r item => r.tryInsert k item.1 item.2) entities.items r

def tryCascade : Nat → State → (k : Kind) → String → Attempt Raised State
  | depth, r, k, key =>
      match (r.stores k).get? key with
      | none => .fail r (.invalidKey "Key not in store.")
      | some old =>
          let removed : State := { r with stores := r.stores.put k ((r.stores k).erase key) }
          let swept : Attempt Raised State :=
            match depth with
            | 0 => .done removed
            | depth + 1 =>
                .each (fun r d =>
                  .each (fun r (item : String × Data d) =>
                    if Data.consistent r.stores d item.2 then .done r
                    else tryCascade depth r d item.1) (r.stores d).items r) k.depends removed
          swept.andThen fun r => r.tryOnDelete k key old

def tryDelete (r : State) (k : Kind) (key : String) : Attempt Raised State :=
  tryCascade k.level r k key

def tryDeleteList (r : State) (k : Kind) : Attempt Raised State :=
  .each (fun r key => r.tryDelete k key) (r.stores k).keys r

def tryRun (r : State) : Op → Attempt Raised State
  | .create k key data => r.tryCreate k key data
  | .update k key data => r.tryUpdate k key data
  | .mergeList k data => r.tryMergeList k data
  | .delete k key => r.tryDelete k key
  | .deleteList k => r.tryDeleteList k

variable (r : State) (k : Kind) (key : String)

theorem outcome_tryCallback (a : Attempt PyError Scoring) :
    (r.tryCallback a).outcome = r.callback a.outcome := by
  unfold tryCallback callback
  rw [Attempt.outcome_into, Attempt.outcome_mapRaised]
  cases a.outcome with
  | error e => rfl
  | ok scoring => rfl

theorem outcome_tryOnCreate (e : Data k) : (r.tryOnCreate k key e).outcome = r.onCreate k key e := by
  cases k with
  | submission =>
      rw [tryOnCreate, outcome_tryCallback, Scoring.outcome_tryCreateSubmission, onCreate]
  | subchange =>
      rw [tryOnCreate, outcome_tryCallback, Scoring.outcome_tryCreateSubchange, onCreate]
  | _ => rfl

theorem outcome_tryOnUpdate (old e : Data k) :
    (r.tryOnUpdate k key old e).outcome = r.onUpdate k key old e := by
  cases k with
  | submission =>
      rw [tryOnUpdate, outcome_tryCallback, Scoring.outcome_tryUpdateSubmission, onUpdate]
  | subchange =>
      rw [tryOnUpdate, outcome_tryCallback, Scoring.outcome_tryUpdateSubchange, onUpdate]
  | _ => rfl

theorem outcome_tryOnDelete (old : Data k) :
    (r.tryOnDelete k key old).outcome = r.onDelete k key old := by
  cases k with
  | submission =>
      rw [tryOnDelete, outcome_tryCallback, Scoring.outcome_tryDeleteSubmission, onDelete]
  | subchange =>
      rw [tryOnDelete, outcome_tryCallback, Scoring.outcome_tryDeleteSubchange, onDelete]
  | _ => rfl

theorem outcome_tryInsert (e : Data k) : (r.tryInsert k key e).outcome = r.insert k key e := by
  unfold tryInsert insert
  cases (r.stores k).get? key with
  | none => exact outcome_tryOnCreate _ k key e
  | some old => exact outcome_tryOnUpdate _ k key old e

theorem outcome_tryCascade (depth : Nat) : ∀ (r : State) (k : Kind) (key : String),
    (tryCascade depth r k key).outcome = cascade depth r k key := by
  induction depth with
  | zero =>
      intro r k key
      unfold tryCascade cascade
      cases (r.stores k).get? key with
      | none => rfl
      | some old => exact outcome_tryOnDelete _ k key old
  | succ depth ih =>
      intro r k key
      unfold tryCascade cascade
      cases (r.stores k).get? key with
      | none => rfl
      | some old =>
          dsimp only
          rw [Attempt.outcome_andThen, Attempt.outcome_each]
          simp only [outcome_tryOnDelete]
          -- An item of a dependent store is kept, or deleted one store further down.
          have hitem : ∀ (r : State) (d : Kind) (item : String × Data d),
              (if Data.consistent r.stores d item.2 then (.done r : Attempt Raised State)
                else tryCascade depth r d item.1).outcome =
              if Data.consistent r.stores d item.2 then .ok r else cascade depth r d item.1 := by
            intro r d item
            split
            case isTrue => rfl
            case isFalse => exact ih r d item.1
          simp only [Attempt.outcome_each, hitem]

theorem outcome_tryRun (op : Op) : (r.tryRun op).outcome = r.run op := by
  cases op with
  | create k key data =>
      show (r.tryCreate k key data).outcome = r.create k key data
      unfold tryCreate create
      split
      case isTrue => rfl
      split
      case isTrue => rfl
      case isFalse =>
        rw [Attempt.outcome_read]
        simp only [outcome_tryInsert]
  | update k key data =>
      show (r.tryUpdate k key data).outcome = r.update k key data
      unfold tryUpdate update
      split
      case isTrue => rfl
      case isFalse =>
        rw [Attempt.outcome_read]
        simp only [outcome_tryInsert]
  | mergeList k data =>
      show (r.tryMergeList k data).outcome = r.mergeList k data
      unfold tryMergeList mergeList
      rw [Attempt.outcome_read]
      simp only [Attempt.outcome_each, outcome_tryInsert]
  | delete k key => exact outcome_tryCascade k.level r k key
  | deleteList k =>
      show (r.tryDeleteList k).outcome = r.deleteList k
      unfold tryDeleteList deleteList
      rw [Attempt.outcome_each]
      exact congrArg (fun f => (r.stores k).keys.foldlM f r)
        (funext fun r => funext fun key => outcome_tryCascade k.level r k key)

end State

/-- The ranking, from empty stores, where an operation that raises is a step too. -/
def attemptMachine : Machine State Op where
  init r := r = State.empty
  step r op := some (r.tryRun op).state

end Ranking
end ContestManagement
