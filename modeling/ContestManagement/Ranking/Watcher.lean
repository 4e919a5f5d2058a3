import ContestManagement.Ranking.Layers

/-!
# What the viewers of a ranking are told

`DataWatcher` sends an event for every contest, task, team and user that is created, updated and
deleted, and for every score that changes.  Here are the operations of the stores once more, with
the events that are sent; `State` forgets them.

An entity is out of its store when its dependents are deleted, and its own event comes after theirs.
-/

namespace ContestManagement
namespace Ranking

open Lib

/-- What `DataWatcher` sends. -/
inductive Event
  | create (k : Kind) (key : String)
  | update (k : Kind) (key : String)
  | delete (k : Kind) (key : String)
  | score (user task : String) (score : ℚ)
  deriving DecidableEq

/-- A ranking with the events that were sent. -/
structure Watched where
  state : State
  sent : List Event

namespace Watched

def send (w : Watched) (e : Event) : Watched := { w with sent := w.sent ++ [e] }

def withStores (w : Watched) (stores : Stores) : Watched :=
  { w with state := { w.state with stores := stores } }

def withScoring (w : Watched) (scoring : Scoring) : Watched :=
  { w with state := { w.state with scoring := scoring } }

/-- `notify_callbacks`, if the score differs from the one before. -/
def notifyCallbacks (w : Watched) (user task : String) (old new : Score) : Watched :=
  if old.getScore ≠ new.getScore then w.send (.score user task new.getScore) else w

/-- A score that was changed in place. -/
def setScore (w : Watched) (user task : String) (old new : Score) : Watched :=
  (w.withScoring (w.state.scoring.set (user, task) new)).notifyCallbacks user task old new

/-! ## The callbacks of `ScoringStore` -/

def createSubmission (w : Watched) (key : String) (s : Submission) : Except PyError Watched := do
  let sc ← w.state.scoring.findOrNew w.state.stores s.user s.task
  return w.setScore s.user s.task sc (sc.createSubmission key s)

def deleteSubmission (w : Watched) (key : String) (s : Submission) : Except PyError Watched := do
  let sc ← w.state.scoring.find s.user s.task
  let sc' ← sc.deleteSubmission key
  let scoring := if sc'.submissions.items = [] then w.state.scoring.erase (s.user, s.task)
    else w.state.scoring.set (s.user, s.task) sc'
  return (w.withScoring scoring).notifyCallbacks s.user s.task sc sc'

def updateSubmission (w : Watched) (key : String) (old s : Submission) : Except PyError Watched :=
  if old.user ≠ s.user ∨ old.task ≠ s.task then do
    let w ← w.deleteSubmission key old
    w.createSubmission key s
  else do
    let scoreMode ← Scoring.scoreModeOf w.state.stores s.task
    let sc ← w.state.scoring.find s.user s.task
    let sc' ← sc.updateSubmission key s
    return w.setScore s.user s.task sc (sc'.updateScoreMode scoreMode)

/-- Change the score that a submission belongs to. -/
def modifyAt (w : Watched) (submission : String) (f : Score → Except PyError Score) :
    Except PyError Watched := do
  let s ← Scoring.submissionOf w.state.stores submission
  let sc ← w.state.scoring.find s.user s.task
  let sc' ← f sc
  return w.setScore s.user s.task sc sc'

def createSubchange (w : Watched) (key : String) (c : Subchange) : Except PyError Watched :=
  w.modifyAt c.submission fun sc => sc.createSubchange key c

def deleteSubchange (w : Watched) (key : String) (c : Subchange) : Except PyError Watched :=
  if w.state.stores.has .submission c.submission = false then .ok w
  else w.modifyAt c.submission fun sc => sc.deleteSubchange key

def updateSubchange (w : Watched) (key : String) (old c : Subchange) : Except PyError Watched :=
  if old.submission ≠ c.submission then do
    let w ← w.deleteSubchange key old
    w.createSubchange key c
  else w.modifyAt c.submission fun sc => sc.updateSubchange key c

/-! ## The operations of a store -/

def onCreate (w : Watched) : (k : Kind) → String → Data k → Except Raised Watched
  | .submission, key, s => (w.createSubmission key s).mapError .crashed
  | .subchange, key, c => (w.createSubchange key c).mapError .crashed
  | k, key, _ => .ok (w.send (.create k key))

def onUpdate (w : Watched) : (k : Kind) → String → Data k → Data k → Except Raised Watched
  | .submission, key, old, s => (w.updateSubmission key old s).mapError .crashed
  | .subchange, key, old, c => (w.updateSubchange key old c).mapError .crashed
  | k, key, _, _ => .ok (w.send (.update k key))

def onDelete (w : Watched) : (k : Kind) → String → Data k → Except Raised Watched
  | .submission, key, s => (w.deleteSubmission key s).mapError .crashed
  | .subchange, key, c => (w.deleteSubchange key c).mapError .crashed
  | k, key, _ => .ok (w.send (.delete k key))

def insert (w : Watched) (k : Kind) (key : String) (e : Data k) : Except Raised Watched :=
  let stored := w.withStores (w.state.stores.put k ((w.state.stores k).set key e))
  match (w.state.stores k).get? key with
  | none => stored.onCreate k key e
  | some old => stored.onUpdate k key old e

def without (w : Watched) (k : Kind) (key : String) : Watched :=
  w.withStores (w.state.stores.put k ((w.state.stores k).erase key))

/-! ## Without the events -/

variable (w : Watched)

@[simp] theorem state_send (e : Event) : (w.send e).state = w.state := rfl

@[simp] theorem state_notifyCallbacks (user task : String) (old new : Score) :
    (w.notifyCallbacks user task old new).state = w.state := by
  unfold notifyCallbacks
  split
  case isTrue => rfl
  case isFalse => rfl

theorem state_setScore (user task : String) (old new : Score) :
    (w.setScore user task old new).state =
      { w.state with scoring := w.state.scoring.set (user, task) new } := by
  rw [setScore, state_notifyCallbacks]
  rfl

/-- The callbacks of `ScoringStore` change the scores only. -/
def ChangesScores (x : Except PyError Watched) (y : Except PyError Scoring) : Prop :=
  x.map state = y.map fun scoring => { w.state with scoring := scoring }

variable {w}

theorem ChangesScores.bind {α : Type} {x : Except PyError α} {f : α → Except PyError Watched}
    {g : α → Except PyError Scoring} (h : ∀ a, w.ChangesScores (f a) (g a)) :
    w.ChangesScores (x >>= f) (x >>= g) := by
  cases x with
  | error e => rfl
  | ok a => exact h a

/-- One callback after another. -/
theorem ChangesScores.andThen {x : Except PyError Watched} {y : Except PyError Scoring}
    {f : Watched → Except PyError Watched} {g : Scoring → Except PyError Scoring}
    (hx : w.ChangesScores x y)
    (hf : ∀ (w' : Watched) (scoring : Scoring), w'.state = { w.state with scoring := scoring } →
      w'.ChangesScores (f w') (g scoring)) : w.ChangesScores (x >>= f) (y >>= g) := by
  cases x with
  | error e =>
      cases y with
      | error e' =>
          cases hx
          rfl
      | ok scoring => cases hx
  | ok w' =>
      cases y with
      | error e' => cases hx
      | ok scoring =>
          have hstate : w'.state = { w.state with scoring := scoring } := Except.ok.inj hx
          have hnext := hf w' scoring hstate
          unfold ChangesScores at hnext
          rw [hstate] at hnext
          exact hnext

theorem ChangesScores.stores {x : Except PyError Watched} {y : Except PyError Scoring} {w' : Watched}
    (h : w.ChangesScores x y) (hx : x = .ok w') : w'.state.stores = w.state.stores := by
  unfold ChangesScores at h
  rw [hx] at h
  cases y with
  | error e => cases h
  | ok scoring =>
      have hstate : w'.state = { w.state with scoring := scoring } := Except.ok.inj h
      rw [hstate]

theorem ChangesScores.setScore (user task : String) (old new : Score) :
    w.ChangesScores (.ok (w.setScore user task old new))
      (.ok (w.state.scoring.set (user, task) new)) :=
  congrArg Except.ok (w.state_setScore user task old new)

theorem createSubmission_changes (key : String) (s : Submission) :
    w.ChangesScores (w.createSubmission key s)
      (w.state.scoring.createSubmission w.state.stores key s) :=
  ChangesScores.bind fun sc => ChangesScores.setScore s.user s.task sc _

theorem deleteSubmission_changes (key : String) (s : Submission) :
    w.ChangesScores (w.deleteSubmission key s) (w.state.scoring.deleteSubmission key s) := by
  apply ChangesScores.bind
  intro sc
  apply ChangesScores.bind
  intro sc'
  exact congrArg Except.ok (state_notifyCallbacks _ s.user s.task sc sc')

theorem updateSubmission_changes (key : String) (old s : Submission) :
    w.ChangesScores (w.updateSubmission key old s)
      (w.state.scoring.updateSubmission w.state.stores key old s) := by
  unfold updateSubmission Scoring.updateSubmission
  split
  case isTrue =>
    apply ChangesScores.andThen (deleteSubmission_changes key old)
    intro w' scoring hstate
    have hcreate := createSubmission_changes (w := w') key s
    rw [hstate] at hcreate
    exact hcreate
  case isFalse =>
    apply ChangesScores.bind
    intro scoreMode
    apply ChangesScores.bind
    intro sc
    apply ChangesScores.bind
    intro sc'
    exact ChangesScores.setScore s.user s.task sc _

theorem modifyAt_changes (submission : String) (f : Score → Except PyError Score) :
    w.ChangesScores (w.modifyAt submission f)
      (w.state.scoring.modifyAt w.state.stores submission f) := by
  apply ChangesScores.bind
  intro s
  apply ChangesScores.bind
  intro sc
  apply ChangesScores.bind
  intro sc'
  exact ChangesScores.setScore s.user s.task sc sc'

theorem deleteSubchange_changes (key : String) (c : Subchange) :
    w.ChangesScores (w.deleteSubchange key c)
      (w.state.scoring.deleteSubchange w.state.stores key c) := by
  unfold deleteSubchange Scoring.deleteSubchange
  split
  case isTrue => rfl
  case isFalse => exact modifyAt_changes c.submission _

theorem updateSubchange_changes (key : String) (old c : Subchange) :
    w.ChangesScores (w.updateSubchange key old c)
      (w.state.scoring.updateSubchange w.state.stores key old c) := by
  unfold updateSubchange Scoring.updateSubchange
  split
  case isTrue =>
    apply ChangesScores.andThen (deleteSubchange_changes key old)
    intro w' scoring hstate
    have hcreate := modifyAt_changes (w := w') c.submission fun sc => sc.createSubchange key c
    rw [hstate] at hcreate
    exact hcreate
  case isFalse => exact modifyAt_changes c.submission _

theorem ChangesScores.callback {x : Except PyError Watched} {y : Except PyError Scoring}
    (h : w.ChangesScores x y) : (x.mapError Raised.crashed).map state = w.state.callback y := by
  rw [map_mapError, h]
  cases y with
  | error e => rfl
  | ok scoring => rfl

theorem state_onCreate {k : Kind} (key : String) (e : Data k) :
    (w.onCreate k key e).map state = w.state.onCreate k key e := by
  cases k with
  | submission => exact (createSubmission_changes key e).callback
  | subchange => exact (modifyAt_changes e.submission _).callback
  | _ => rfl

theorem state_onUpdate {k : Kind} (key : String) (old e : Data k) :
    (w.onUpdate k key old e).map state = w.state.onUpdate k key old e := by
  cases k with
  | submission => exact (updateSubmission_changes key old e).callback
  | subchange => exact (updateSubchange_changes key old e).callback
  | _ => rfl

theorem state_onDelete {k : Kind} (key : String) (old : Data k) :
    (w.onDelete k key old).map state = w.state.onDelete k key old := by
  cases k with
  | submission => exact (deleteSubmission_changes key old).callback
  | subchange => exact (deleteSubchange_changes key old).callback
  | _ => rfl

theorem state_insert {k : Kind} (key : String) (e : Data k) :
    (w.insert k key e).map state = w.state.insert k key e := by
  unfold insert State.insert
  cases (w.state.stores k).get? key with
  | none => exact state_onCreate key e
  | some old => exact state_onUpdate key old e

end Watched

/-- The stores with the events that they send. -/
@[reducible] def watchedLayer : Layer Watched where
  state := Watched.state
  insert := Watched.insert
  without := Watched.without
  onDelete := Watched.onDelete
  state_insert _ _ key e := Watched.state_insert key e
  state_without _ _ _ := rfl
  state_onDelete _ _ key old := Watched.state_onDelete key old

/-- A ranking with viewers, from empty stores. -/
def watchedMachine : Machine Watched Op where
  init w := w = ⟨State.empty, []⟩
  step := watchedLayer.step

end Ranking
end ContestManagement
