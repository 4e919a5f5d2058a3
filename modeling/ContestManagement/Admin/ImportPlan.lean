import ContestManagement.Admin.ReadRows
import ContestManagement.Common.Crypto

/-!
# Planning and writing a bulk import

`plan_import` compares the rows of a file with the database without writing anything.  The passwords
are then hashed, a few at a time, and `apply_import` reads the database again and writes the rows.
The global import of users does the same with accounts alone.
-/

namespace ContestManagement
namespace Admin

open Lib
open Common

structure User where
  firstName : String
  lastName : String
  password : String
  deriving DecidableEq

structure Participation where
  teamId : Option Nat
  groupId : Nat
  password : Option String
  deriving DecidableEq

/-- The tables that an import reads and writes; users and participations by their usernames. -/
structure Database where
  /-- The main group of each contest. -/
  contests : Dict Nat (Option Nat)
  teams : Dict String Nat
  /-- The groups of each contest. -/
  groups : Nat → Dict String Nat
  users : Dict String User
  participations : Dict (Nat × String) Participation
  /-- The foreign key of a participation. -/
  owned : ∀ key, (participations.get? key).isSome = true → (users.get? key.2).isSome = true

namespace Database

/-- Insert or update a user. -/
def writeUser (db : Database) (username : String) (user : User) : Database where
  contests := db.contests
  teams := db.teams
  groups := db.groups
  users := db.users.set username user
  participations := db.participations
  owned key h := by
    rw [Dict.get?_set]
    split
    · rfl
    · exact db.owned key h

/-- Insert or update a user and a participation. -/
def write (db : Database) (contestId : Nat) (username : String) (user : User)
    (participation : Participation) : Database where
  contests := db.contests
  teams := db.teams
  groups := db.groups
  users := db.users.set username user
  participations := db.participations.set (contestId, username) participation
  owned key h := by
    rw [Dict.get?_set] at h ⊢
    split
    · rfl
    · next hne =>
        rw [if_neg fun heq => hne (congrArg Prod.snd heq)] at h
        exact db.owned key h

end Database

structure ImportPlan where
  newUsers : List String
  updatedUsers : List String
  newParticipations : List String
  updatedParticipations : List String
  teams : Dict String Nat
  groups : Dict String Nat
  mainGroupId : Nat
  removedTeams : Nat
  movedToMainGroup : Nat
  storedPasswords : Dict String String

/-- The values of some keys that have one. -/
def collect {β : Type} (value : String → Option β) (keys : List String) : Dict String β :=
  keys.foldl (fun d key => match value key with
    | some b => d.set key b
    | none => d) Dict.empty

section Plan

variable (db : Database) (contestId : Nat)

def hasUser (username : String) : Bool := (db.users.get? username).isSome

def hasParticipation (username : String) : Bool :=
  (db.participations.get? (contestId, username)).isSome

/-- What is wrong with a row. -/
def rowErrors (row : ImportRow) : List String :=
  (match row.team with
    | some team =>
        if (db.teams.get? team).isNone then [s!"fila {row.line}: el equipo {team} no existe"] else []
    | none => []) ++
  (match row.group with
    | some group =>
        if ((db.groups contestId).get? group).isNone then
          [s!"fila {row.line}: el grupo {group} no existe en este concurso"]
        else []
    | none => []) ++
  (if row.password.isNone && !hasUser db row.username then
    [s!"fila {row.line}: el usuario {row.username} no existe; sin columna de contraseña solo se " ++
      "pueden inscribir usuarios que ya existen"]
  else [])

/-- The import clears the team of the participation of a row. -/
def clearsTeam (row : ImportRow) : Bool :=
  match db.participations.get? (contestId, row.username) with
  | some p => row.team.isNone && p.teamId.isSome
  | none => false

/-- The import moves the participation of a row to the main group, as the row has no group. -/
def movesToMainGroup (mainGroupId : Nat) (row : ImportRow) : Bool :=
  match db.participations.get? (contestId, row.username) with
  | some p => row.group.isNone && p.groupId ≠ mainGroupId
  | none => false

/-- The plan of rows without errors. -/
def planOf (mainGroupId : Nat) (rows : List ImportRow) : ImportPlan :=
  let usernames := rows.map ImportRow.username
  { newUsers := usernames.filter fun u => !hasUser db u
    updatedUsers := usernames.filter (hasUser db)
    newParticipations := usernames.filter fun u => !hasParticipation db contestId u
    updatedParticipations := usernames.filter (hasParticipation db contestId)
    teams := db.teams
    groups := db.groups contestId
    mainGroupId
    removedTeams := rows.countP (clearsTeam db contestId)
    movedToMainGroup := rows.countP (movesToMainGroup db contestId mainGroupId)
    storedPasswords := collect
      (fun u => (db.participations.get? (contestId, u)).bind Participation.password) usernames }

/-- `plan_import`: the plan or the errors. -/
def planImport (rows : List ImportRow) : Except (List String) ImportPlan :=
  match db.contests.get? contestId with
  | none => .error ["el concurso no existe"]
  | some none => .error ["el concurso no tiene grupo principal"]
  | some (some mainGroupId) =>
      let errors := rows.flatMap (rowErrors db contestId)
      if errors ≠ [] then .error errors else .ok (planOf db contestId mainGroupId rows)

end Plan

inductive ImportExc
  | valueError (message : String)
  | keyError (key : String)
  | assertionError
  /-- A row that the database refuses. -/
  | integrityError
  deriving DecidableEq

section Hash

variable {Salt : Type} (bcrypt : Bcrypt Salt)

/-- `_hash_or_keep`. -/
def hashOrKeep (salt : Salt) (password : String) (stored : Option String) :
    Except ImportExc String :=
  match stored with
  | none => .ok (hashPassword bcrypt salt password)
  | some stored =>
      if "bcrypt:".toList.isPrefixOf stored.toList then
        match validatePassword bcrypt stored password with
        | .ok true => .ok stored
        | .ok false => .ok (hashPassword bcrypt salt password)
        | .error e => .error (.valueError e.message)
      else .ok (hashPassword bcrypt salt password)

/-- What is drawn at random for a row. -/
structure Draw (Salt : Type) where
  salt : Salt
  accountSalt : Salt
  /-- `generate_random_password`. -/
  accountPassword : String

/-- `_hash_in_pool`: the work on the rows, in the order in which it completes. -/
def hashInPool {β : Type} (work : ImportRow → Except ImportExc β) (completed : List ImportRow) :
    Except ImportExc (Dict String β) :=
  completed.foldlM (fun result row => do
    let value ← work row
    return result.set row.username value) Dict.empty

/-- The work of `hash_passwords` on one row. -/
def hashRow (draw : String → Draw Salt) (newUsers : List String)
    (storedPasswords : Dict String String) (row : ImportRow) :
    Except ImportExc (Option String × Option String) := do
  let participation ← match row.password with
    | none => pure none
    | some password =>
        some <$> hashOrKeep bcrypt (draw row.username).salt password
          (storedPasswords.get? row.username)
  let account :=
    if newUsers.contains row.username then
      some (hashPassword bcrypt (draw row.username).accountSalt (draw row.username).accountPassword)
    else none
  return (participation, account)

/-- `hash_passwords`. -/
def hashPasswords (draw : String → Draw Salt) (newUsers : List String)
    (storedPasswords : Dict String String) (completed : List ImportRow) :
    Except ImportExc (Dict String (Option String × Option String)) :=
  hashInPool (hashRow bcrypt draw newUsers storedPasswords) completed

end Hash

section Apply

/-- The team of a row. -/
def teamIdOf (plan : ImportPlan) (row : ImportRow) : Except ImportExc (Option Nat) :=
  match row.team with
  | none => .ok none
  | some team =>
      match plan.teams.get? team with
      | some teamId => .ok (some teamId)
      | none => .error (.keyError team)

/-- The group of a row. -/
def groupIdOf (plan : ImportPlan) (row : ImportRow) : Except ImportExc Nat :=
  match row.group with
  | none => .ok plan.mainGroupId
  | some group =>
      match plan.groups.get? group with
      | some groupId => .ok groupId
      | none => .error (.keyError group)

/-- A user that is not there is inserted once, with a password. -/
def userOf (before db : Database) (row : ImportRow) (account : Option String) :
    Except ImportExc User :=
  match before.users.get? row.username with
  | some user => .ok { user with firstName := row.firstName, lastName := row.lastName }
  | none =>
      match account with
      | some password =>
          if hasUser db row.username then .error .integrityError
          else .ok ⟨row.firstName, row.lastName, password⟩
      | none => .error .integrityError

/-- The participation of a row; without a new password it keeps the one it has. -/
def participationOf (before : Database) (contestId : Nat) (row : ImportRow) (teamId : Option Nat)
    (groupId : Nat) (password : Option String) : Participation :=
  match before.participations.get? (contestId, row.username) with
  | some p => ⟨teamId, groupId, password.or p.password⟩
  | none => ⟨teamId, groupId, password⟩

/-- What `apply_import` does with one row; it has read the users and the participations before. -/
def applyRow (contestId : Nat) (plan : ImportPlan)
    (hashes : Dict String (Option String × Option String)) (before db : Database)
    (row : ImportRow) : Except ImportExc Database :=
  match hashes.get? row.username with
  | none => .error (.keyError row.username)
  | some (password, account) => do
      let user ← userOf before db row account
      let teamId ← teamIdOf plan row
      let groupId ← groupIdOf plan row
      return db.write contestId row.username user
        (participationOf before contestId row teamId groupId password)

/-- `apply_import`, with the commit. -/
def applyImport (db : Database) (contestId : Nat) (rows : List ImportRow) (plan : ImportPlan)
    (hashes : Dict String (Option String × Option String)) : Except ImportExc Database :=
  rows.foldlM (applyRow contestId plan hashes db) db

end Apply

/-! ## The global import of users -/

structure UserImportPlan where
  newUsers : List String
  updatedUsers : List String
  storedPasswords : Dict String String

/-- `plan_user_import`. -/
def planUserImport (db : Database) (rows : List ImportRow) : UserImportPlan :=
  let usernames := rows.map ImportRow.username
  { newUsers := usernames.filter fun u => !hasUser db u
    updatedUsers := usernames.filter (hasUser db)
    storedPasswords := collect (fun u => (db.users.get? u).map User.password) usernames }

section Accounts

variable {Salt : Type} (bcrypt : Bcrypt Salt)

/-- The work of `hash_account_passwords` on one row, which must have a password. -/
def hashAccountRow (draw : String → Draw Salt) (storedPasswords : Dict String String)
    (row : ImportRow) : Except ImportExc String :=
  match row.password with
  | some password =>
      hashOrKeep bcrypt (draw row.username).salt password (storedPasswords.get? row.username)
  | none => .error .assertionError

/-- `hash_account_passwords`. -/
def hashAccountPasswords (draw : String → Draw Salt) (storedPasswords : Dict String String)
    (completed : List ImportRow) : Except ImportExc (Dict String String) :=
  hashInPool (hashAccountRow bcrypt draw storedPasswords) completed

/-- What `apply_user_import` does with one row. -/
def applyUserRow (hashes : Dict String String) (before db : Database) (row : ImportRow) :
    Except ImportExc Database :=
  match hashes.get? row.username with
  | none => .error (.keyError row.username)
  | some password =>
      if (before.users.get? row.username).isNone && hasUser db row.username then
        .error .integrityError
      else .ok (db.writeUser row.username ⟨row.firstName, row.lastName, password⟩)

/-- `apply_user_import`, with the commit. -/
def applyUserImport (db : Database) (rows : List ImportRow) (hashes : Dict String String) :
    Except ImportExc Database :=
  rows.foldlM (applyUserRow hashes db) db

end Accounts

end Admin
end ContestManagement
