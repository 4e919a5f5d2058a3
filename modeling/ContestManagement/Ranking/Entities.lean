import ContestManagement.Lib.Dict
import ContestManagement.Lib.Python

/-!
# The entities of the ranking

The six kinds of entities that a ranking web server stores, how each is set from the JSON
data of a request (`validate` and `set`), and when it is consistent with the stores.  An
entity is set only from data of the right types: `set` gives the message of the first check
that fails.
-/

namespace ContestManagement
namespace Ranking

open Lib

/-! ## Reading the data of a request -/

/-- `assert isinstance(data, dict)`. -/
def asDict : PyValue → Except String (List (String × PyValue))
  | .dict items => .ok items
  | _ => .error "Not a dictionary"

/-- An assertion, with its message. -/
def require {β : Type} (value : Option β) (message : String) : Except String β :=
  match value with
  | some b => .ok b
  | none => .error message

/-- `data[name]`. -/
def field (data : List (String × PyValue)) (name : String) : Except String PyValue :=
  require (data.lookup name) ("Field '" ++ name ++ "' is missing")

/-- A field that has to pass a check. -/
def checked {β : Type} (data : List (String × PyValue)) (name : String) (test : PyValue → Option β)
    (message : String) : Except String β := do
  let value ← field data name
  require (test value) ("Field '" ++ name ++ "' " ++ message)

/-- A field that has to pass a check if it is there. -/
def optional {β : Type} (data : List (String × PyValue)) (name : String)
    (test : PyValue → Option β) (message : String) : Except String (Option β) :=
  match data.lookup name with
  | none => .ok none
  | some value => some <$> require (test value) ("Field '" ++ name ++ "' " ++ message)

def float? : PyValue → Option ℚ
  | .float q => some q
  | _ => none

def bool? : PyValue → Option Bool
  | .bool b => some b
  | _ => none

def list? : PyValue → Option (List PyValue)
  | .list values => some values
  | _ => none

/-- A string or null. -/
def strOrNull? : PyValue → Option (Option String)
  | .none => some none
  | .str s => some (some s)
  | _ => none

/-! ## The entities -/

structure Contest where
  name : String
  begin : ℤ
  finish : ℤ
  scorePrecision : ℤ
  deriving DecidableEq

structure Task where
  name : String
  shortName : String
  contest : String
  maxScore : ℚ
  scorePrecision : ℤ
  extraHeaders : List String
  order : ℤ
  scoreMode : String
  deriving DecidableEq

structure Team where
  name : String
  deriving DecidableEq

structure User where
  firstName : String
  lastName : String
  team : Option String
  deriving DecidableEq

structure Submission where
  user : String
  task : String
  time : ℤ
  deriving DecidableEq

structure Subchange where
  submission : String
  time : ℤ
  score : Option ℚ
  token : Option Bool
  extra : Option (List String)
  deriving DecidableEq

/-- A score precision is not negative. -/
def scorePrecisionOf (data : List (String × PyValue)) : Except String ℤ := do
  let precision ← checked data "score_precision" PyValue.int? "isn't an integer"
  require (if 0 ≤ precision then some precision else none) "Field 'score_precision' is negative"

def Contest.set (value : PyValue) : Except String Contest := do
  let data ← asDict value
  let name ← checked data "name" PyValue.str? "isn't a string"
  let begin ← checked data "begin" PyValue.int? "isn't an integer"
  let finish ← checked data "end" PyValue.int? "isn't an integer"
  let _ ← require (if begin ≤ finish then some () else none) "Field 'begin' is greater than 'end'"
  let precision ← scorePrecisionOf data
  return ⟨name, begin, finish, precision⟩

def Task.set (value : PyValue) : Except String Task := do
  let data ← asDict value
  let name ← checked data "name" PyValue.str? "isn't a string"
  let shortName ← checked data "short_name" PyValue.str? "isn't a string"
  let contest ← checked data "contest" PyValue.str? "isn't a string"
  let maxScore ← checked data "max_score" float? "isn't a float"
  let precision ← scorePrecisionOf data
  -- The elements of the headers are looked at after the score mode.
  let _ ← checked data "extra_headers" list? "isn't a list of strings"
  let scoreMode ← checked data "score_mode" PyValue.str? "isn't a string"
  let headers ← checked data "extra_headers" PyValue.strings? "isn't a list of strings"
  let order ← checked data "order" PyValue.int? "isn't an integer"
  return ⟨name, shortName, contest, maxScore, precision, headers, order, scoreMode⟩

def Team.set (value : PyValue) : Except String Team := do
  let data ← asDict value
  let name ← checked data "name" PyValue.str? "isn't a string"
  return ⟨name⟩

def User.set (value : PyValue) : Except String User := do
  let data ← asDict value
  let firstName ← checked data "f_name" PyValue.str? "isn't a string"
  let lastName ← checked data "l_name" PyValue.str? "isn't a string"
  let team ← checked data "team" strOrNull? "isn't a string (or null)"
  return ⟨firstName, lastName, team⟩

def Submission.set (value : PyValue) : Except String Submission := do
  let data ← asDict value
  let user ← checked data "user" PyValue.str? "isn't a string"
  let task ← checked data "task" PyValue.str? "isn't a string"
  let time ← checked data "time" PyValue.int? "isn't an integer (unix timestamp)"
  return ⟨user, task, time⟩

def Subchange.set (value : PyValue) : Except String Subchange := do
  let data ← asDict value
  let submission ← checked data "submission" PyValue.str? "isn't a string"
  let time ← checked data "time" PyValue.int? "isn't an integer (unix timestamp)"
  let score ← optional data "score" float? "isn't a float"
  let token ← optional data "token" bool? "isn't a boolean"
  let extra ← optional data "extra" PyValue.strings? "isn't a list of strings"
  return ⟨submission, time, score, token, extra⟩

/-! ## The stores -/

inductive Kind
  | contest
  | task
  | team
  | user
  | submission
  | subchange
  deriving DecidableEq

/-- The entities of a kind. -/
@[reducible] def Data : Kind → Type
  | .contest => Contest
  | .task => Task
  | .team => Team
  | .user => User
  | .submission => Submission
  | .subchange => Subchange

instance (k : Kind) : DecidableEq (Data k) := by
  cases k <;> exact inferInstance

/-- The six stores, each a dictionary from keys to entities. -/
abbrev Stores : Type := (k : Kind) → Dict String (Data k)

namespace Stores

def empty : Stores := fun _ => Dict.empty

/-- `key in store`. -/
def has (stores : Stores) (k : Kind) (key : String) : Bool :=
  ((stores k).get? key).isSome

/-- The stores with another dictionary for one kind. -/
def put (stores : Stores) (k : Kind) (d : Dict String (Data k)) : Stores :=
  Function.update stores k d

@[simp] theorem put_self (stores : Stores) (k : Kind) (d : Dict String (Data k)) :
    stores.put k d k = d := by
  simp [put]

theorem put_of_ne (stores : Stores) {k k' : Kind} (d : Dict String (Data k)) (hne : k' ≠ k) :
    stores.put k d k' = stores k' := by
  simp [put, hne]

end Stores

namespace Data

/-- `Entity.set` of each kind. -/
def set : (k : Kind) → PyValue → Except String (Data k)
  | .contest => Contest.set
  | .task => Task.set
  | .team => Team.set
  | .user => User.set
  | .submission => Submission.set
  | .subchange => Subchange.set

/-- `Entity.consistent` of each kind: what it refers to is stored. -/
def consistent (stores : Stores) : (k : Kind) → Data k → Bool
  | .contest, _ => true
  | .task, t => stores.has .contest t.contest
  | .team, _ => true
  | .user, u =>
      match u.team with
      | none => true
      | some team => stores.has .team team
  | .submission, s => stores.has .task s.task && stores.has .user s.user
  | .subchange, c => stores.has .submission c.submission

/-- What an entity refers to. -/
def references : (k : Kind) → Data k → List (Kind × String)
  | .contest, _ => []
  | .task, t => [(.contest, t.contest)]
  | .team, _ => []
  | .user, u => u.team.toList.map fun team => (.team, team)
  | .submission, s => [(.task, s.task), (.user, s.user)]
  | .subchange, c => [(.submission, c.submission)]

theorem consistent_iff (stores : Stores) (k : Kind) (e : Data k) :
    consistent stores k e = true ↔ ∀ r ∈ references k e, stores.has r.1 r.2 = true := by
  cases k with
  | user =>
      obtain ⟨_, _, team⟩ := e
      cases team with
      | none => simp [consistent, references]
      | some team => simp [consistent, references]
  | _ => simp [consistent, references]

end Data

/-- The stores whose entities refer to a kind, as they are wired in `build_ranking_app`. -/
def Kind.depends : Kind → List Kind
  | .contest => [.task]
  | .task => [.submission]
  | .team => [.user]
  | .user => [.submission]
  | .submission => [.subchange]
  | .subchange => []

/-- How many stores a deletion goes down through. -/
def Kind.level : Kind → Nat
  | .contest => 3
  | .task => 2
  | .team => 3
  | .user => 2
  | .submission => 1
  | .subchange => 0

theorem Kind.level_lt_of_mem_depends {k d : Kind} (h : d ∈ k.depends) : d.level < k.level := by
  cases k <;> simp only [depends, List.mem_singleton, List.not_mem_nil] at h <;> subst h <;> decide

theorem Data.mem_depends_of_mem_references {k : Kind} {e : Data k} {r : Kind × String}
    (h : r ∈ references k e) : k ∈ r.1.depends := by
  cases k with
  | user =>
      unfold references at h
      obtain ⟨team, -, rfl⟩ := List.mem_map.1 h
      exact List.mem_singleton_self _
  | contest => simp [references] at h
  | team => simp [references] at h
  | task =>
      simp only [references, List.mem_singleton] at h
      subst h
      exact List.mem_singleton_self _
  | submission =>
      simp only [references, List.mem_cons, List.not_mem_nil, or_false] at h
      rcases h with rfl | rfl <;> exact List.mem_singleton_self _
  | subchange =>
      simp only [references, List.mem_singleton] at h
      subst h
      exact List.mem_singleton_self _

end Ranking
end ContestManagement
