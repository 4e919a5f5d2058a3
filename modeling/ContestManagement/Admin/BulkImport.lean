import ContestManagement.Admin.ImportOutcome

/-!
# Both bulk imports

The global import of users writes accounts and no participations.  As with a contest import, it does
what its plan says, and a second one leaves the database as it is.
-/

namespace ContestManagement
namespace Admin

open Lib
open Common

/-! ## The import of users -/

section Users

variable {Salt : Type} {bcrypt : Bcrypt Salt} {before db after : Database}
variable {rows completed : List ImportRow}

/-- The database has the account of a row, with a hash of its password. -/
def AccountWritten (bcrypt : Bcrypt Salt) (after : Database) (row : ImportRow) : Prop :=
  ∃ user, after.users.get? row.username = some user ∧ user.firstName = row.firstName ∧
    user.lastName = row.lastName ∧
      ∀ text, row.password = some text → Settled bcrypt text user.password

/-- The database has the accounts done so far, and all else as before. -/
structure AccountsWritten (bcrypt : Bcrypt Salt) (before : Database) (done : List ImportRow)
    (after : Database) : Prop where
  contests : after.contests = before.contests
  teams : after.teams = before.teams
  groups : after.groups = before.groups
  participations : after.participations = before.participations
  rows : ∀ row ∈ done, AccountWritten bcrypt after row
  users : ∀ username, username ∉ done.map ImportRow.username →
    after.users.get? username = before.users.get? username

theorem accountsWritten_applyUserRow {done : List ImportRow}
    (hdone : AccountsWritten bcrypt before done db) {row : ImportRow}
    (hnew : row.username ∉ done.map ImportRow.username) {hashes : Dict String String}
    {stored : String} (hget : hashes.get? row.username = some stored)
    (hsettled : ∀ text, row.password = some text → Settled bcrypt text stored) :
    ∃ after, applyUserRow hashes before db row = .ok after ∧
      AccountsWritten bcrypt before (done ++ [row]) after := by
  refine ⟨db.writeUser row.username ⟨row.firstName, row.lastName, stored⟩, ?_, ?_⟩
  · -- A user that was not there before has not been inserted since.
    have hinsert : ((before.users.get? row.username).isNone && hasUser db row.username) = false := by
      unfold hasUser
      rw [hdone.users row.username hnew]
      cases before.users.get? row.username <;> rfl
    unfold applyUserRow
    rw [hget]
    dsimp only
    rw [hinsert]
    rfl
  · refine ⟨hdone.contests, hdone.teams, hdone.groups, hdone.participations,
      fun other hother => ?_, fun username husername => ?_⟩
    · rcases List.mem_append.1 hother with hother | hother
      · have hne : other.username ≠ row.username := fun heq =>
          hnew (heq ▸ List.mem_map_of_mem hother)
        obtain ⟨user, huser, hrest⟩ := hdone.rows other hother
        refine ⟨user, ?_, hrest⟩
        show (db.users.set row.username _).get? other.username = some user
        rw [Dict.get?_set, if_neg hne, huser]
      · rw [List.mem_singleton] at hother
        subst hother
        refine ⟨⟨other.firstName, other.lastName, stored⟩, ?_, rfl, rfl, hsettled⟩
        show (db.users.set other.username _).get? other.username = _
        rw [Dict.get?_set, if_pos rfl]
    · rw [List.map_append, List.map_singleton, List.mem_append, List.mem_singleton,
        not_or] at husername
      show (db.users.set row.username _).get? username = _
      rw [Dict.get?_set, if_neg husername.2, hdone.users username husername.1]

theorem applyUserImport_ok (before : Database) (hdistinct : (rows.map ImportRow.username).Nodup)
    {hashes : Dict String String}
    (hhashes : ∀ row ∈ rows, ∃ stored, hashes.get? row.username = some stored ∧
      ∀ text, row.password = some text → Settled bcrypt text stored) :
    ∃ after, applyUserImport before rows hashes = .ok after ∧
      AccountsWritten bcrypt before rows after := by
  refine foldlM_ok_of_forall (P := AccountsWritten bcrypt before)
    ⟨rfl, rfl, rfl, rfl, by simp, fun _ _ => rfl⟩ ?_
  intro done row db hinit hdone
  have hnew : row.username ∉ done.map ImportRow.username := not_mem_of_initial hinit hdistinct
  obtain ⟨stored, hget, hsettled⟩ := hhashes row (hinit.subset (by simp))
  exact accountsWritten_applyUserRow hdone hnew hget hsettled

theorem hashAccountRow_ok (draw : String → Draw Salt) (storedPasswords : Dict String String)
    {row : ImportRow} (hpassword : row.password.isSome = true)
    (haccepts : ∀ password, row.password = some password → AcceptsOwnHash bcrypt password) :
    ∃ stored, hashAccountRow bcrypt draw storedPasswords row = .ok stored ∧
      ∀ text, row.password = some text → Settled bcrypt text stored := by
  obtain ⟨text, htext⟩ := Option.isSome_iff_exists.1 hpassword
  obtain ⟨stored, hok, hsettled⟩ := hashOrKeep_settled (haccepts text htext)
    (draw row.username).salt (storedPasswords.get? row.username)
  refine ⟨stored, ?_, fun other hother => ?_⟩
  · unfold hashAccountRow
    rw [htext]
    exact hok
  · rw [htext, Option.some.injEq] at hother
    exact hother ▸ hsettled

theorem hashAccountPasswords_ok (draw : String → Draw Salt) (storedPasswords : Dict String String)
    (hdistinct : (rows.map ImportRow.username).Nodup)
    (hpassword : ∀ row ∈ rows, row.password.isSome = true)
    (haccepts : AcceptsPasswords bcrypt rows) (hcompleted : completed.Perm rows) :
    ∃ hashes, hashAccountPasswords bcrypt draw storedPasswords completed = .ok hashes ∧
      ∀ row ∈ rows, ∀ stored, hashAccountRow bcrypt draw storedPasswords row = .ok stored →
        hashes.get? row.username = some stored := by
  have hnodup : (completed.map ImportRow.username).Nodup :=
    (hcompleted.map ImportRow.username).nodup_iff.2 hdistinct
  obtain ⟨hashes, hhashes, hget⟩ := hashInPool_ok hnodup
    (fun row hrow => by
      have hmem := hcompleted.mem_iff.1 hrow
      obtain ⟨stored, hok, -⟩ :=
        hashAccountRow_ok draw storedPasswords (hpassword row hmem) (haccepts row hmem)
      exact ⟨stored, hok⟩)
  exact ⟨hashes, hhashes, fun row hrow => hget row (hcompleted.mem_iff.2 hrow)⟩

/-- A second import writes each account as it is. -/
theorem applyUserRow_after (h : AccountsWritten bcrypt before rows after) {row : ImportRow}
    (hrow : row ∈ rows) {hashes : Dict String String} {user : User}
    (huser : after.users.get? row.username = some user)
    (hget : hashes.get? row.username = some user.password) :
    applyUserRow hashes after after row = .ok after := by
  obtain ⟨user', huser', hfirst, hlast, -⟩ := h.rows row hrow
  rw [huser, Option.some.injEq] at huser'
  subst huser'
  have hsame : (⟨row.firstName, row.lastName, user.password⟩ : User) = user := by
    rw [← hfirst, ← hlast]
  have hwrite : after.writeUser row.username user = after :=
    Database.ext_tables rfl rfl rfl (Dict.set_eq_self huser) rfl
  unfold applyUserRow
  rw [hget, huser]
  dsimp only
  rw [hsame, hwrite]
  rfl

theorem applyUserImport_after {hashes : Dict String String}
    (h : ∀ row ∈ rows, applyUserRow hashes after after row = .ok after) :
    applyUserImport after rows hashes = .ok after := by
  unfold applyUserImport
  induction rows with
  | nil => rfl
  | cons row rest ih =>
      rw [List.foldlM_cons, h row List.mem_cons_self]
      exact ih fun other hother => h other (List.mem_cons_of_mem row hother)

/-- The database after an import of users is the one that the plan told of. -/
structure FollowsUserPlan (bcrypt : Bcrypt Salt) (rows : List ImportRow) (plan : UserImportPlan)
    (before after : Database) : Prop where
  newUsers : ∀ username, username ∈ plan.newUsers ↔
    hasUser before username = false ∧ hasUser after username = true
  updatedUsers : ∀ username, username ∈ plan.updatedUsers ↔
    hasUser before username = true ∧ ∃ row ∈ rows, row.username = username
  /-- Every account is in the database, and nothing else has changed. -/
  written : AccountsWritten bcrypt before rows after

theorem followsUserPlan_of_written (h : AccountsWritten bcrypt before rows after) :
    FollowsUserPlan bcrypt rows (planUserImport before rows) before after where
  newUsers username := by
    unfold planUserImport
    dsimp only
    rw [List.mem_filter, Bool.not_eq_true', and_comm]
    refine and_congr_right fun hnew => ?_
    constructor
    · intro husername
      obtain ⟨row, hrow, rfl⟩ := List.mem_map.1 husername
      obtain ⟨user, huser, -⟩ := h.rows row hrow
      unfold hasUser
      rw [huser]
      rfl
    · intro hafter
      by_contra hother
      unfold hasUser at hnew hafter
      rw [h.users username hother, hnew] at hafter
      cases hafter
  updatedUsers username := by
    unfold planUserImport
    dsimp only
    rw [List.mem_filter, List.mem_map, and_comm]
  written := h

/-- An import of users ends in a database that follows the plan.  Any second import of the same rows
has no user to create, and leaves that database exactly as it is. -/
def ImportsUsersAsPlanned (bcrypt : Bcrypt Salt) (rows : List ImportRow) (before : Database)
    (draw : String → Draw Salt) (completed : List ImportRow) : Prop :=
  ∃ hashes after,
    hashAccountPasswords bcrypt draw (planUserImport before rows).storedPasswords completed =
      .ok hashes ∧
    applyUserImport before rows hashes = .ok after ∧
    FollowsUserPlan bcrypt rows (planUserImport before rows) before after ∧
    ∀ (draw' : String → Draw Salt) (completed' : List ImportRow), completed'.Perm rows →
      ∃ hashes', (planUserImport after rows).newUsers = [] ∧
        hashAccountPasswords bcrypt draw' (planUserImport after rows).storedPasswords completed' =
          .ok hashes' ∧
        applyUserImport after rows hashes' = .ok after

theorem importsUsersAsPlanned_of_rows {reader : CsvReader} {mapping : Mapping} {data : ByteArray}
    (hrows : readRows reader userImport mapping data = (rows, []))
    (haccepts : AcceptsPasswords bcrypt rows) (before : Database) (draw : String → Draw Salt)
    (hcompleted : completed.Perm rows) :
    ImportsUsersAsPlanned bcrypt rows before draw completed := by
  have hread := readRows_of_eq hrows
  have hpassword := hread.password (by decide)
  obtain ⟨hashes, hhashes, hget⟩ := hashAccountPasswords_ok draw
    (planUserImport before rows).storedPasswords hread.distinct hpassword haccepts hcompleted
  obtain ⟨after, hafter, hwritten⟩ := applyUserImport_ok before hread.distinct
    (fun row hrow => by
      obtain ⟨stored, hok, hsettled⟩ := hashAccountRow_ok draw
        (planUserImport before rows).storedPasswords (hpassword row hrow) (haccepts row hrow)
      exact ⟨stored, hget row hrow stored hok, hsettled⟩)
  refine ⟨hashes, after, hhashes, hafter, followsUserPlan_of_written hwritten, ?_⟩
  intro draw' completed' hcompleted'
  obtain ⟨hashes', hhashes', hget'⟩ := hashAccountPasswords_ok draw'
    (planUserImport after rows).storedPasswords hread.distinct hpassword haccepts hcompleted'
  refine ⟨hashes', ?_, hhashes', applyUserImport_after fun row hrow => ?_⟩
  · refine List.filter_eq_nil_iff.2 fun username husername => ?_
    obtain ⟨row, hrow, rfl⟩ := List.mem_map.1 husername
    obtain ⟨user, huser, -⟩ := hwritten.rows row hrow
    simp [hasUser, huser]
  · obtain ⟨user, huser, -, -, hsettled⟩ := hwritten.rows row hrow
    obtain ⟨text, htext⟩ := Option.isSome_iff_exists.1 (hpassword row hrow)
    have hcollected : (planUserImport after rows).storedPasswords.get? row.username =
        some user.password := by
      unfold planUserImport
      dsimp only
      rw [get?_collect, if_pos (List.mem_map_of_mem hrow), huser]
      rfl
    have hkept : hashAccountRow bcrypt draw' (planUserImport after rows).storedPasswords row =
        .ok user.password := by
      unfold hashAccountRow
      rw [htext, hcollected]
      exact hashOrKeep_of_settled (hsettled text htext) _
    exact applyUserRow_after hwritten hrow huser (hget' row hrow _ hkept)

end Users

/-! ## Both imports -/

/-- An import does what its plan says: the users and participations that it creates and updates are
those listed, the counts are those of the participations that change for want of a team or a group
in their rows, and nothing else changes.  A second import of the same rows changes nothing. -/
theorem bulk_import_follows_plan {Salt : Type} (bcrypt : Bcrypt Salt) (reader : CsvReader)
    (mapping : Mapping) (data : ByteArray) (rows : List ImportRow)
    (haccepts : AcceptsPasswords bcrypt rows) (before : Database) (draw : String → Draw Salt)
    (completed : List ImportRow) (hcompleted : completed.Perm rows) :
    (readRows reader contestImport mapping data = (rows, []) → ∀ contestId plan,
      planImport before contestId rows = .ok plan →
        ImportsAsPlanned bcrypt contestId rows plan before draw completed) ∧
      (readRows reader userImport mapping data = (rows, []) →
        ImportsUsersAsPlanned bcrypt rows before draw completed) :=
  ⟨fun hrows _ _ hplan => importsAsPlanned_of_plan hrows haccepts hplan draw hcompleted,
    fun hrows => importsUsersAsPlanned_of_rows hrows haccepts before draw hcompleted⟩

/-! ### A small contest -/

/-- A hash that shows its salt and its password. -/
def plainBcrypt : Bcrypt String where
  hashpw salt password := salt ++ "$" ++ password
  checkpw payload password := ("$" ++ password).toList.isSuffixOf payload.toList

/-- A contest with two groups, and a contestant in the second one with a team. -/
def smallDatabase : Database where
  contests := Dict.singleton 1 (some 10)
  teams := Dict.singleton "mx" 5
  groups contestId := if contestId = 1 then (Dict.singleton "main" 10).set "remote" 20 else Dict.empty
  users := Dict.singleton "ana" ⟨"Ana", "P.", "bcrypt:a$old"⟩
  participations := Dict.singleton (1, "ana") ⟨some 5, 20, none⟩
  owned key h := by
    rw [Dict.get?_singleton] at h
    split at h
    · next hkey => rw [hkey]; rfl
    · cases h

def twoContestants : String :=
  "usuario;nombre;apellido;clave;grupo\nana;Ana;Paz;abeja;\nleo;Leo;Ruiz;zorro;remote\n"

def smallDraw (username : String) : Draw String := ⟨username, username ++ "2", "q7"⟩

theorem accepts_plainBcrypt (rows : List ImportRow) : AcceptsPasswords plainBcrypt rows := by
  intro row _ password _ salt
  rw [validatePassword_hashPassword]
  unfold plainBcrypt
  dsimp only
  rw [Except.ok.injEq, List.isSuffixOf_iff_suffix, String.append_assoc]
  exact ⟨salt.toList, String.toList_append.symm⟩

theorem bulk_import_follows_plan_small :
    ∃ plan, planImport smallDatabase 1
        (readRows plainReader contestImport anaMapping twoContestants.toUTF8).1 = .ok plan ∧
      plan.newUsers = ["leo"] ∧ plan.removedTeams = 1 ∧ plan.movedToMainGroup = 1 ∧
      ImportsAsPlanned plainBcrypt 1
        (readRows plainReader contestImport anaMapping twoContestants.toUTF8).1 plan smallDatabase
        smallDraw (readRows plainReader contestImport anaMapping twoContestants.toUTF8).1 := by
  have hread : (readRows plainReader contestImport anaMapping twoContestants.toUTF8).2 = [] := by
    decide +kernel
  have hplan : ∃ plan, planImport smallDatabase 1
      (readRows plainReader contestImport anaMapping twoContestants.toUTF8).1 = .ok plan ∧
        plan.newUsers = ["leo"] ∧ plan.removedTeams = 1 ∧ plan.movedToMainGroup = 1 := by
    refine ⟨_, planImport_eq_ok_iff.2 ⟨10, rfl, by decide +kernel, rfl⟩, ?_⟩
    decide +kernel
  obtain ⟨plan, hok, hnew, hteams, hmain⟩ := hplan
  have himport := bulk_import_follows_plan plainBcrypt plainReader anaMapping twoContestants.toUTF8 _
    (accepts_plainBcrypt _) smallDatabase smallDraw _ (List.Perm.refl
      (readRows plainReader contestImport anaMapping twoContestants.toUTF8).1)
  exact ⟨plan, hok, hnew, hteams, hmain, himport.1 (Prod.ext rfl hread) 1 plan hok⟩

/-- A file without passwords, in which the group of the contestant is the main one. -/
def intoMain : String := "usuario;nombre;apellido;grupo\nana;Ana;Paz;main\n"

def withoutPassword : Mapping
  | .password => none
  | field => anaMapping field

/-- A row that names the main group moves its participation there, and is not counted. -/
theorem named_main_group_not_counted :
    ∃ rows plan hashes after,
      readRows plainReader contestImport withoutPassword intoMain.toUTF8 = (rows, []) ∧
      planImport smallDatabase 1 rows = .ok plan ∧
      hashPasswords plainBcrypt smallDraw plan.newUsers plan.storedPasswords rows = .ok hashes ∧
      applyImport smallDatabase 1 rows plan hashes = .ok after ∧
      plan.movedToMainGroup = 0 ∧
      smallDatabase.participations.keys.countP
        (comesToMainGroup plan.mainGroupId smallDatabase after) = 1 := by
  refine ⟨[⟨2, "ana", "Ana", "Paz", none, none, some "main"⟩], _,
    Dict.singleton "ana" (none, none), smallDatabase.write 1 "ana" ⟨"Ana", "Paz", "bcrypt:a$old"⟩
      ⟨none, 10, none⟩, by decide +kernel,
    planImport_eq_ok_iff.2 ⟨10, rfl, by decide +kernel, rfl⟩, rfl, rfl, rfl, ?_⟩
  decide +kernel

end Admin
end ContestManagement
