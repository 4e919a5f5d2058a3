import ContestManagement.Admin.ImportRuns

/-!
# The outcome of a contest import

Each row writes its user and its participation.  The counts of the plan are those of the
participations that change, and a second import of the rows leaves the database as it is.
-/

namespace ContestManagement
namespace Admin

open Lib
open Common

/-! ## The plan -/

section Plan

variable {db : Database} {contestId mainGroupId : Nat} {rows : List ImportRow} {plan : ImportPlan}

theorem planImport_eq_ok_iff : planImport db contestId rows = .ok plan ↔
    ∃ mainGroupId, db.contests.get? contestId = some (some mainGroupId) ∧
      (∀ row ∈ rows, rowErrors db contestId row = []) ∧
        plan = planOf db contestId mainGroupId rows := by
  unfold planImport
  cases hcontest : db.contests.get? contestId with
  | none => simp
  | some main =>
      cases main with
      | none => simp
      | some mainGroupId =>
          dsimp only
          by_cases herrors : rows.flatMap (rowErrors db contestId) = []
          · rw [if_neg (not_not.2 herrors), Except.ok.injEq]
            rw [List.flatMap_eq_nil_iff] at herrors
            constructor
            · rintro rfl
              exact ⟨mainGroupId, rfl, herrors, rfl⟩
            · rintro ⟨main, hmain, -, rfl⟩
              cases hmain
              rfl
          · rw [if_pos herrors]
            constructor
            · intro h
              cases h
            · rintro ⟨main, -, hrows, -⟩
              exact absurd (List.flatMap_eq_nil_iff.2 hrows) herrors

/-- What a row without errors names is there. -/
structure RowFits (db : Database) (contestId : Nat) (row : ImportRow) : Prop where
  team : ∀ team, row.team = some team → ∃ teamId, db.teams.get? team = some teamId
  group : ∀ group, row.group = some group → ∃ groupId, (db.groups contestId).get? group = some groupId
  user : row.password = none → hasUser db row.username = true

theorem rowErrors_eq_nil_iff {row : ImportRow} :
    rowErrors db contestId row = [] ↔ RowFits db contestId row := by
  unfold rowErrors
  rw [List.append_eq_nil_iff, List.append_eq_nil_iff]
  constructor
  · rintro ⟨⟨hteam, hgroup⟩, huser⟩
    refine ⟨fun team hrow => ?_, fun group hrow => ?_, fun hrow => ?_⟩
    · rw [hrow] at hteam
      cases hget : db.teams.get? team with
      | none => simp [hget] at hteam
      | some teamId => exact ⟨teamId, rfl⟩
    · rw [hrow] at hgroup
      cases hget : (db.groups contestId).get? group with
      | none => simp [hget] at hgroup
      | some groupId => exact ⟨groupId, rfl⟩
    · cases hget : hasUser db row.username with
      | true => rfl
      | false => simp [hrow, hget] at huser
  · intro h
    refine ⟨⟨?_, ?_⟩, ?_⟩
    · cases hrow : row.team with
      | none => rfl
      | some team =>
          obtain ⟨teamId, hget⟩ := h.team team hrow
          simp [hget]
    · cases hrow : row.group with
      | none => rfl
      | some group =>
          obtain ⟨groupId, hget⟩ := h.group group hrow
          simp [hget]
    · rw [if_neg]
      intro hboth
      rw [Bool.and_eq_true, Option.isNone_iff_eq_none, Bool.not_eq_true'] at hboth
      rw [h.user hboth.1] at hboth
      cases hboth.2

theorem teamIdOf_ok {row : ImportRow} (h : RowFits db contestId row) :
    ∃ teamId, teamIdOf (planOf db contestId mainGroupId rows) row = .ok teamId := by
  unfold teamIdOf
  cases hrow : row.team with
  | none => exact ⟨none, rfl⟩
  | some team =>
      obtain ⟨teamId, hget⟩ := h.team team hrow
      refine ⟨some teamId, ?_⟩
      unfold planOf
      dsimp only
      rw [hget]

theorem groupIdOf_ok {row : ImportRow} (h : RowFits db contestId row) :
    ∃ groupId, groupIdOf (planOf db contestId mainGroupId rows) row = .ok groupId := by
  unfold groupIdOf
  cases hrow : row.group with
  | none => exact ⟨_, rfl⟩
  | some group =>
      obtain ⟨groupId, hget⟩ := h.group group hrow
      refine ⟨groupId, ?_⟩
      unfold planOf
      dsimp only
      rw [hget]

theorem teamIdOf_none {row : ImportRow} (h : row.team = none) : teamIdOf plan row = .ok none := by
  unfold teamIdOf
  rw [h]

theorem groupIdOf_none {row : ImportRow} (h : row.group = none) :
    groupIdOf plan row = .ok plan.mainGroupId := by
  unfold groupIdOf
  rw [h]

end Plan

/-! ## What the rows write -/

section Written

variable {Salt : Type} {bcrypt : Bcrypt Salt} {contestId : Nat} {plan : ImportPlan}
variable {before db : Database}

/-- The hashes for one row: the one of its participation, and an account password if its user is
new. -/
structure HashesOf (bcrypt : Bcrypt Salt) (before : Database) (row : ImportRow)
    (password account : Option String) : Prop where
  none : row.password = none → password = none
  settled : ∀ text, row.password = some text →
    ∃ stored, password = some stored ∧ Settled bcrypt text stored
  account : hasUser before row.username = false → ∃ stored, account = some stored

/-- The database has the user and the participation of a row. -/
structure RowWritten (bcrypt : Bcrypt Salt) (contestId : Nat) (plan : ImportPlan)
    (before after : Database) (row : ImportRow) : Prop where
  user : ∃ user, after.users.get? row.username = some user ∧ user.firstName = row.firstName ∧
    user.lastName = row.lastName ∧
      ∀ old, before.users.get? row.username = some old → user.password = old.password
  participation : ∃ p, after.participations.get? (contestId, row.username) = some p ∧
    teamIdOf plan row = .ok p.teamId ∧ groupIdOf plan row = .ok p.groupId ∧
      (row.password = none → p.password =
        (before.participations.get? (contestId, row.username)).bind Participation.password) ∧
        ∀ text, row.password = some text →
          ∃ stored, p.password = some stored ∧ Settled bcrypt text stored

/-- The database has the rows done so far, and all else as before. -/
structure RowsWritten (bcrypt : Bcrypt Salt) (contestId : Nat) (plan : ImportPlan)
    (before : Database) (done : List ImportRow) (after : Database) : Prop where
  contests : after.contests = before.contests
  teams : after.teams = before.teams
  groups : after.groups = before.groups
  rows : ∀ row ∈ done, RowWritten bcrypt contestId plan before after row
  users : ∀ username, username ∉ done.map ImportRow.username →
    after.users.get? username = before.users.get? username
  participations : ∀ key, ¬(key.1 = contestId ∧ key.2 ∈ done.map ImportRow.username) →
    after.participations.get? key = before.participations.get? key

/-- The user that a row writes. -/
theorem userOf_ok (db : Database) {row : ImportRow} {account : Option String}
    (haccount : hasUser before row.username = false → ∃ stored, account = some stored)
    (hsame : db.users.get? row.username = before.users.get? row.username) :
    ∃ user, userOf before db row account = .ok user ∧ user.firstName = row.firstName ∧
      user.lastName = row.lastName ∧
        ∀ old, before.users.get? row.username = some old → user.password = old.password := by
  unfold userOf
  cases hold : before.users.get? row.username with
  | some old =>
      refine ⟨_, rfl, rfl, rfl, fun other hother => ?_⟩
      rw [Option.some.injEq] at hother
      exact hother ▸ rfl
  | none =>
      have hnew : hasUser before row.username = false := by
        unfold hasUser
        rw [hold]
        rfl
      obtain ⟨stored, rfl⟩ := haccount hnew
      have habsent : hasUser db row.username = false := by
        unfold hasUser
        rw [hsame, hold]
        rfl
      dsimp only
      rw [habsent]
      exact ⟨_, rfl, rfl, rfl, fun old h => by cases h⟩

theorem participationOf_password {row : ImportRow} {teamId : Option Nat} {groupId : Nat}
    {password : Option String} : (participationOf before contestId row teamId groupId
      password).password = password.or
        ((before.participations.get? (contestId, row.username)).bind Participation.password) := by
  unfold participationOf
  cases before.participations.get? (contestId, row.username) with
  | none => cases password <;> rfl
  | some p => rfl

theorem participationOf_ids {row : ImportRow} {teamId : Option Nat} {groupId : Nat}
    {password : Option String} :
    (participationOf before contestId row teamId groupId password).teamId = teamId ∧
      (participationOf before contestId row teamId groupId password).groupId = groupId := by
  unfold participationOf
  cases before.participations.get? (contestId, row.username) with
  | none => exact ⟨rfl, rfl⟩
  | some p => exact ⟨rfl, rfl⟩

/-- A row that was not done before is written. -/
theorem rowsWritten_applyRow {done : List ImportRow}
    (hdone : RowsWritten bcrypt contestId plan before done db) {row : ImportRow}
    (hnew : row.username ∉ done.map ImportRow.username)
    {hashes : Dict String (Option String × Option String)} {password account : Option String}
    (hget : hashes.get? row.username = some (password, account))
    (hhashes : HashesOf bcrypt before row password account)
    {teamId : Option Nat} (hteam : teamIdOf plan row = .ok teamId)
    {groupId : Nat} (hgroup : groupIdOf plan row = .ok groupId) :
    ∃ after, applyRow contestId plan hashes before db row = .ok after ∧
      RowsWritten bcrypt contestId plan before (done ++ [row]) after := by
  obtain ⟨user, huser, hfirst, hlast, hold⟩ :=
    userOf_ok db hhashes.account (hdone.users row.username hnew)
  refine ⟨db.write contestId row.username user
    (participationOf before contestId row teamId groupId password), ?_, ?_⟩
  · unfold applyRow
    rw [hget]
    dsimp only
    rw [huser, hteam, hgroup]
    rfl
  · refine ⟨hdone.contests, hdone.teams, hdone.groups, fun other hother => ?_,
      fun username husername => ?_, fun key hkey => ?_⟩
    · rcases List.mem_append.1 hother with hother | hother
      · -- The rows done before have other usernames.
        have hne : other.username ≠ row.username := fun heq =>
          hnew (heq ▸ List.mem_map_of_mem hother)
        have hrow := hdone.rows other hother
        constructor
        · obtain ⟨user', huser', hrest⟩ := hrow.user
          refine ⟨user', ?_, hrest⟩
          show (db.users.set row.username user).get? other.username = some user'
          rw [Dict.get?_set, if_neg hne, huser']
        · obtain ⟨p, hp, hrest⟩ := hrow.participation
          refine ⟨p, ?_, hrest⟩
          show (db.participations.set (contestId, row.username) _).get?
            (contestId, other.username) = some p
          rw [Dict.get?_set, if_neg fun heq => hne (congrArg Prod.snd heq), hp]
      · rw [List.mem_singleton] at hother
        subst hother
        constructor
        · refine ⟨user, ?_, hfirst, hlast, hold⟩
          show (db.users.set other.username user).get? other.username = some user
          rw [Dict.get?_set, if_pos rfl]
        · refine ⟨participationOf before contestId other teamId groupId password, ?_, ?_, ?_,
            fun hnone => ?_, fun text htext => ?_⟩
          · show (db.participations.set (contestId, other.username) _).get?
              (contestId, other.username) = _
            rw [Dict.get?_set, if_pos rfl]
          · rw [participationOf_ids.1, hteam]
          · rw [participationOf_ids.2, hgroup]
          · rw [participationOf_password, hhashes.none hnone, Option.none_or]
          · obtain ⟨stored, hstored, hsettled⟩ := hhashes.settled text htext
            refine ⟨stored, ?_, hsettled⟩
            rw [participationOf_password, hstored, Option.some_or]
    · rw [List.map_append, List.map_singleton, List.mem_append, List.mem_singleton,
        not_or] at husername
      show (db.users.set row.username user).get? username = _
      rw [Dict.get?_set, if_neg husername.2, hdone.users username husername.1]
    · rw [List.map_append, List.map_singleton, List.mem_append, List.mem_singleton] at hkey
      show (db.participations.set (contestId, row.username) _).get? key = _
      have hother : key ≠ (contestId, row.username) := by
        rintro rfl
        exact hkey ⟨rfl, Or.inr rfl⟩
      rw [Dict.get?_set, if_neg hother, hdone.participations key fun h => hkey ⟨h.1, Or.inl h.2⟩]

/-- The rows are written one after the other. -/
theorem applyImport_ok {rows : List ImportRow}
    (hdistinct : (rows.map ImportRow.username).Nodup)
    {hashes : Dict String (Option String × Option String)}
    (hhashes : ∀ row ∈ rows, ∃ password account,
      hashes.get? row.username = some (password, account) ∧
        HashesOf bcrypt before row password account)
    (hteams : ∀ row ∈ rows, ∃ teamId, teamIdOf plan row = .ok teamId)
    (hgroups : ∀ row ∈ rows, ∃ groupId, groupIdOf plan row = .ok groupId) :
    ∃ after, applyImport before contestId rows plan hashes = .ok after ∧
      RowsWritten bcrypt contestId plan before rows after := by
  refine foldlM_ok_of_forall (P := RowsWritten bcrypt contestId plan before)
    ⟨rfl, rfl, rfl, by simp, fun _ _ => rfl, fun _ _ => rfl⟩ ?_
  intro done row db hinit hdone
  have hrow : row ∈ rows := hinit.subset (by simp)
  have hnew : row.username ∉ done.map ImportRow.username := not_mem_of_initial hinit hdistinct
  obtain ⟨password, account, hget, hof⟩ := hhashes row hrow
  obtain ⟨teamId, hteam⟩ := hteams row hrow
  obtain ⟨groupId, hgroup⟩ := hgroups row hrow
  exact rowsWritten_applyRow hdone hnew hget hof hteam hgroup

end Written

/-! ## The hashes of an import -/

section Hashing

variable {Salt : Type} {bcrypt : Bcrypt Salt} {rows completed : List ImportRow}

/-- The library accepts the passwords of the rows with their own hashes. -/
def AcceptsPasswords (bcrypt : Bcrypt Salt) (rows : List ImportRow) : Prop :=
  ∀ row ∈ rows, ∀ password, row.password = some password → AcceptsOwnHash bcrypt password

theorem hashRow_ok (draw : String → Draw Salt) (newUsers : List String)
    (storedPasswords : Dict String String) {row : ImportRow}
    (haccepts : ∀ password, row.password = some password → AcceptsOwnHash bcrypt password) :
    ∃ password account, hashRow bcrypt draw newUsers storedPasswords row =
        .ok (password, account) ∧
      (row.password = none → password = none) ∧
        (∀ text, row.password = some text →
          ∃ stored, password = some stored ∧ Settled bcrypt text stored) ∧
          (row.username ∈ newUsers → ∃ stored, account = some stored) := by
  have haccount : row.username ∈ newUsers → ∃ stored, (if newUsers.contains row.username then
      some (hashPassword bcrypt (draw row.username).accountSalt
        (draw row.username).accountPassword) else none) = some stored := by
    intro hnew
    rw [if_pos (List.contains_iff_mem.2 hnew)]
    exact ⟨_, rfl⟩
  unfold hashRow
  cases hpassword : row.password with
  | none => exact ⟨none, _, rfl, fun _ => rfl, fun text h => (by cases h), haccount⟩
  | some text =>
      obtain ⟨stored, hhash, hsettled⟩ := hashOrKeep_settled (haccepts text hpassword)
        (draw row.username).salt (storedPasswords.get? row.username)
      refine ⟨some stored, _, ?_, fun h => (by cases h), fun other hother => ?_, haccount⟩
      · dsimp only
        rw [hhash]
        rfl
      · cases hother
        exact ⟨stored, rfl, hsettled⟩

/-- The password that is stored for a row already is kept. -/
theorem hashRow_kept (draw : String → Draw Salt) (newUsers : List String)
    {storedPasswords : Dict String String} {row : ImportRow} {text stored : String}
    (hpassword : row.password = some text)
    (hstored : storedPasswords.get? row.username = some stored) (hsettled : Settled bcrypt text stored) :
    ∃ account, hashRow bcrypt draw newUsers storedPasswords row = .ok (some stored, account) := by
  unfold hashRow
  rw [hpassword, hstored]
  dsimp only
  rw [hashOrKeep_of_settled hsettled]
  exact ⟨_, rfl⟩

theorem hashPasswords_ok (draw : String → Draw Salt) (newUsers : List String)
    (storedPasswords : Dict String String) (hdistinct : (rows.map ImportRow.username).Nodup)
    (haccepts : AcceptsPasswords bcrypt rows) (hcompleted : completed.Perm rows) :
    ∃ hashes, hashPasswords bcrypt draw newUsers storedPasswords completed = .ok hashes ∧
      ∀ row ∈ rows, ∀ value, hashRow bcrypt draw newUsers storedPasswords row = .ok value →
        hashes.get? row.username = some value := by
  have hnodup : (completed.map ImportRow.username).Nodup :=
    (hcompleted.map ImportRow.username).nodup_iff.2 hdistinct
  obtain ⟨hashes, hhashes, hget⟩ := hashInPool_ok hnodup
    (fun row hrow => by
      obtain ⟨password, account, hok, -⟩ := hashRow_ok draw newUsers storedPasswords
        (haccepts row (hcompleted.mem_iff.1 hrow))
      exact ⟨_, hok⟩)
  exact ⟨hashes, hhashes, fun row hrow => hget row (hcompleted.mem_iff.2 hrow)⟩

end Hashing

/-! ## The counts -/

/-- The participation has a team before and none after. -/
def losesTeam (before after : Database) (key : Nat × String) : Bool :=
  match before.participations.get? key, after.participations.get? key with
  | some p, some p' => p.teamId.isSome && p'.teamId.isNone
  | _, _ => false

/-- The participation is in another group before and in the main group after. -/
def comesToMainGroup (mainGroupId : Nat) (before after : Database) (key : Nat × String) : Bool :=
  match before.participations.get? key, after.participations.get? key with
  | some p, some p' => p.groupId ≠ mainGroupId && p'.groupId = mainGroupId
  | _, _ => false

/-- A row without a group is about the participation. -/
def withoutGroup (contestId : Nat) (rows : List ImportRow) (key : Nat × String) : Bool :=
  rows.any fun row => key = (contestId, row.username) && row.group.isNone

/-- A count over the rows is one over the keys, if what is counted are keys of rows. -/
theorem countP_rows {contestId : Nat} {rows : List ImportRow} {keys : List (Nat × String)}
    (hdistinct : (rows.map ImportRow.username).Nodup) (hkeys : keys.Nodup)
    {f : ImportRow → Bool} {g : Nat × String → Bool}
    (hsame : ∀ row ∈ rows, f row = g (contestId, row.username))
    (hrow : ∀ key ∈ keys, g key = true → ∃ row ∈ rows, key = (contestId, row.username))
    (hkey : ∀ row ∈ rows, g (contestId, row.username) = true → (contestId, row.username) ∈ keys) :
    rows.countP f = keys.countP g := by
  have hnodup : (rows.map fun row => (contestId, row.username)).Nodup := by
    have hpairs : (rows.map fun row => (contestId, row.username)) =
        (rows.map ImportRow.username).map (Prod.mk contestId) := by simp
    rw [hpairs]
    exact hdistinct.map (Prod.mk_right_injective contestId)
  have hcount : rows.countP f =
      (rows.map fun row => (contestId, row.username)).countP g := by
    rw [List.countP_map]
    exact List.countP_congr fun row hmem => by rw [hsame row hmem]; rfl
  rw [hcount, List.countP_eq_length_filter, List.countP_eq_length_filter]
  refine (List.Perm.length_eq ?_)
  refine (List.perm_ext_iff_of_nodup (hnodup.filter g) (hkeys.filter g)).2 fun key => ?_
  rw [List.mem_filter, List.mem_filter, List.mem_map]
  constructor
  · rintro ⟨⟨row, hmem, rfl⟩, hcounted⟩
    exact ⟨hkey row hmem hcounted, hcounted⟩
  · rintro ⟨hmem, hcounted⟩
    obtain ⟨row, hin, rfl⟩ := hrow key hmem hcounted
    exact ⟨⟨row, hin, rfl⟩, hcounted⟩

section Counts

variable {Salt : Type} {bcrypt : Bcrypt Salt} {contestId mainGroupId : Nat}
variable {before after : Database} {rows : List ImportRow}

/-- A participation that changes is one of a row. -/
theorem row_of_changed {plan : ImportPlan}
    (h : RowsWritten bcrypt contestId plan before rows after) {key : Nat × String}
    (hchanged : after.participations.get? key ≠ before.participations.get? key) :
    ∃ row ∈ rows, key = (contestId, row.username) := by
  by_contra hnone
  refine hchanged (h.participations key ?_)
  rintro ⟨hcontest, husername⟩
  obtain ⟨row, hrow, hsame⟩ := List.mem_map.1 husername
  exact hnone ⟨row, hrow, by rw [← hcontest, hsame]⟩

theorem changed_of_losesTeam {key : Nat × String} (h : losesTeam before after key = true) :
    after.participations.get? key ≠ before.participations.get? key ∧
      key ∈ before.participations.keys := by
  unfold losesTeam at h
  split at h
  case h_1 p p' hp hp' =>
    refine ⟨fun hsame => ?_, Dict.mem_keys_iff.2 ⟨p, hp⟩⟩
    rw [hsame, hp, Option.some.injEq] at hp'
    subst hp'
    rw [Bool.and_eq_true, Option.isNone_iff_eq_none] at h
    rw [h.2] at h
    cases h.1
  case h_2 => cases h

theorem changed_of_comesToMainGroup {key : Nat × String}
    (h : comesToMainGroup mainGroupId before after key = true) :
    after.participations.get? key ≠ before.participations.get? key ∧
      key ∈ before.participations.keys := by
  unfold comesToMainGroup at h
  split at h
  case h_1 p p' hp hp' =>
    refine ⟨fun hsame => ?_, Dict.mem_keys_iff.2 ⟨p, hp⟩⟩
    rw [hsame, hp, Option.some.injEq] at hp'
    subst hp'
    rw [Bool.and_eq_true, decide_eq_true_eq, decide_eq_true_eq] at h
    exact h.1 h.2
  case h_2 => cases h

theorem removedTeams_eq (hdistinct : (rows.map ImportRow.username).Nodup)
    (h : RowsWritten bcrypt contestId (planOf before contestId mainGroupId rows) before rows after) :
    (planOf before contestId mainGroupId rows).removedTeams =
      before.participations.keys.countP (losesTeam before after) := by
  refine countP_rows hdistinct before.participations.distinct (fun row hrow => ?_)
    (fun key _ hlost => row_of_changed h (changed_of_losesTeam hlost).1)
    (fun row _ hlost => (changed_of_losesTeam hlost).2)
  obtain ⟨p', hp', hteam, -⟩ := (h.rows row hrow).participation
  unfold clearsTeam losesTeam
  rw [hp']
  cases hp : before.participations.get? (contestId, row.username) with
  | none => rfl
  | some p =>
      dsimp only
      -- The team is none after exactly if the row has none.
      have hsame : row.team.isNone = p'.teamId.isNone := by
        cases hrow : row.team with
        | none =>
            rw [teamIdOf_none hrow, Except.ok.injEq] at hteam
            rw [← hteam]
            rfl
        | some team =>
            unfold teamIdOf at hteam
            rw [hrow] at hteam
            dsimp only at hteam
            split at hteam
            · rw [Except.ok.injEq] at hteam
              rw [← hteam]
              rfl
            · cases hteam
      rw [hsame, Bool.and_comm]

theorem movedToMainGroup_eq (hdistinct : (rows.map ImportRow.username).Nodup)
    (h : RowsWritten bcrypt contestId (planOf before contestId mainGroupId rows) before rows after) :
    (planOf before contestId mainGroupId rows).movedToMainGroup =
      before.participations.keys.countP fun key =>
        comesToMainGroup mainGroupId before after key && withoutGroup contestId rows key := by
  refine countP_rows hdistinct before.participations.distinct (fun row hrow => ?_)
    (fun key _ hmoved => row_of_changed h
      (changed_of_comesToMainGroup (Bool.and_eq_true_iff.1 hmoved).1).1)
    (fun row _ hmoved => (changed_of_comesToMainGroup (Bool.and_eq_true_iff.1 hmoved).1).2)
  obtain ⟨p', hp', -, hgroup, -⟩ := (h.rows row hrow).participation
  have hwithout : withoutGroup contestId rows (contestId, row.username) = row.group.isNone := by
    unfold withoutGroup
    rw [Bool.eq_iff_iff, List.any_eq_true]
    constructor
    · rintro ⟨other, hother, hboth⟩
      rw [Bool.and_eq_true, decide_eq_true_eq, Prod.mk.injEq] at hboth
      have hsame : other = row :=
        List.inj_on_of_nodup_map hdistinct hother hrow hboth.1.2.symm
      exact hsame ▸ hboth.2
    · intro hnone
      exact ⟨row, hrow, by simpa using hnone⟩
  unfold movesToMainGroup comesToMainGroup
  rw [hp', hwithout]
  cases hp : before.participations.get? (contestId, row.username) with
  | none => rfl
  | some p =>
      dsimp only
      cases hrow : row.group with
      | none =>
          rw [groupIdOf_none hrow, Except.ok.injEq] at hgroup
          have hmain : p'.groupId = mainGroupId := hgroup.symm
          simp [hmain]
      | some group => simp

end Counts

/-! ## The second import -/

section Second

variable {Salt : Type} {bcrypt : Bcrypt Salt} {contestId mainGroupId : Nat}
variable {before after : Database} {rows : List ImportRow}

theorem Database.ext_tables {db db' : Database} (hcontests : db.contests = db'.contests)
    (hteams : db.teams = db'.teams) (hgroups : db.groups = db'.groups)
    (husers : db.users = db'.users) (hparticipations : db.participations = db'.participations) :
    db = db' := by
  cases db
  cases db'
  cases hcontests
  cases hteams
  cases hgroups
  cases husers
  cases hparticipations
  rfl

/-- To write what is there already changes nothing. -/
theorem Database.write_same {db : Database} {username : String} {user : User} {p : Participation}
    (huser : db.users.get? username = some user)
    (hp : db.participations.get? (contestId, username) = some p) :
    db.write contestId username user p = db := by
  refine Database.ext_tables rfl rfl rfl ?_ ?_
  · exact Dict.set_eq_self huser
  · exact Dict.set_eq_self hp

theorem rowFits_after {plan : ImportPlan}
    (h : RowsWritten bcrypt contestId plan before rows after) {row : ImportRow} (hrow : row ∈ rows)
    (hfits : RowFits before contestId row) : RowFits after contestId row := by
  obtain ⟨user, huser, -⟩ := (h.rows row hrow).user
  refine ⟨fun team hteam => ?_, fun group hgroup => ?_, fun _ => ?_⟩
  · rw [h.teams]
    exact hfits.team team hteam
  · rw [h.groups]
    exact hfits.group group hgroup
  · unfold hasUser
    rw [huser]
    rfl

/-- The second plan finds nothing to create, to clear or to move. -/
theorem planOf_after (h : RowsWritten bcrypt contestId (planOf before contestId mainGroupId rows)
    before rows after) :
    (planOf after contestId mainGroupId rows).newUsers = [] ∧
      (planOf after contestId mainGroupId rows).newParticipations = [] ∧
        (planOf after contestId mainGroupId rows).removedTeams = 0 ∧
          (planOf after contestId mainGroupId rows).movedToMainGroup = 0 := by
  refine ⟨?_, ?_, ?_, ?_⟩
  · refine List.filter_eq_nil_iff.2 fun username husername => ?_
    obtain ⟨row, hrow, rfl⟩ := List.mem_map.1 husername
    obtain ⟨user, huser, -⟩ := (h.rows row hrow).user
    simp [hasUser, huser]
  · refine List.filter_eq_nil_iff.2 fun username husername => ?_
    obtain ⟨row, hrow, rfl⟩ := List.mem_map.1 husername
    obtain ⟨p, hp, -⟩ := (h.rows row hrow).participation
    simp [hasParticipation, hp]
  · refine List.countP_eq_zero.2 fun row hrow => ?_
    obtain ⟨p, hp, hteam, -⟩ := (h.rows row hrow).participation
    unfold clearsTeam
    rw [hp]
    cases hnone : row.team with
    | some team => simp
    | none =>
        rw [teamIdOf_none hnone, Except.ok.injEq] at hteam
        simp [← hteam]
  · refine List.countP_eq_zero.2 fun row hrow => ?_
    obtain ⟨p, hp, -, hgroup, -⟩ := (h.rows row hrow).participation
    unfold movesToMainGroup
    rw [hp]
    cases hnone : row.group with
    | some group => simp
    | none =>
        rw [groupIdOf_none hnone, Except.ok.injEq] at hgroup
        have hmain : p.groupId = mainGroupId := hgroup.symm
        simp [hmain]

/-- A second import writes each row as it is. -/
theorem applyRow_after
    (h : RowsWritten bcrypt contestId (planOf before contestId mainGroupId rows) before rows after)
    {row : ImportRow} (hrow : row ∈ rows) {hashes : Dict String (Option String × Option String)}
    {password account : Option String} (hget : hashes.get? row.username = some (password, account))
    (hnone : row.password = none → password = none)
    (hkept : ∀ text p, row.password = some text →
      after.participations.get? (contestId, row.username) = some p → password = p.password) :
    applyRow contestId (planOf after contestId mainGroupId rows) hashes after after row =
      .ok after := by
  obtain ⟨user, huser, hfirst, hlast, -⟩ := (h.rows row hrow).user
  obtain ⟨p, hp, hteam, hgroup, -⟩ := (h.rows row hrow).participation
  have hteam' : teamIdOf (planOf after contestId mainGroupId rows) row = .ok p.teamId := by
    rw [← hteam]
    unfold teamIdOf planOf
    rw [h.teams]
  have hgroup' : groupIdOf (planOf after contestId mainGroupId rows) row = .ok p.groupId := by
    rw [← hgroup]
    unfold groupIdOf planOf
    rw [h.groups]
  have huser' : userOf after after row account = .ok user := by
    unfold userOf
    rw [huser]
    dsimp only
    rw [← hfirst, ← hlast]
  have hparticipation : participationOf after contestId row p.teamId p.groupId password = p := by
    have hpassword : password.or p.password = p.password := by
      cases hrow : row.password with
      | none =>
          rw [hnone hrow]
          rfl
      | some text =>
          rw [hkept text p hrow hp]
          exact Option.or_self
    unfold participationOf
    rw [hp]
    dsimp only
    rw [hpassword]
  unfold applyRow
  rw [hget]
  dsimp only
  rw [huser', hteam', hgroup']
  show Except.ok (after.write contestId row.username user _) = .ok after
  rw [hparticipation, Database.write_same huser hp]

theorem applyImport_after {hashes : Dict String (Option String × Option String)} {plan : ImportPlan}
    (h : ∀ row ∈ rows, applyRow contestId plan hashes after after row = .ok after) :
    applyImport after contestId rows plan hashes = .ok after := by
  unfold applyImport
  induction rows with
  | nil => rfl
  | cons row rest ih =>
      rw [List.foldlM_cons, h row List.mem_cons_self]
      exact ih fun other hother => h other (List.mem_cons_of_mem row hother)

end Second

/-! ## A contest import -/

/-- The database after an import is the one that the plan told of. -/
structure FollowsPlan {Salt : Type} (bcrypt : Bcrypt Salt) (contestId : Nat)
    (rows : List ImportRow) (plan : ImportPlan) (before after : Database) : Prop where
  newUsers : ∀ username, username ∈ plan.newUsers ↔
    hasUser before username = false ∧ hasUser after username = true
  newParticipations : ∀ key : Nat × String, key.1 = contestId ∧ key.2 ∈ plan.newParticipations ↔
    before.participations.get? key = none ∧ (after.participations.get? key).isSome = true
  updatedUsers : ∀ username, username ∈ plan.updatedUsers ↔
    hasUser before username = true ∧ ∃ row ∈ rows, row.username = username
  updatedParticipations : ∀ username, username ∈ plan.updatedParticipations ↔
    hasParticipation before contestId username = true ∧ ∃ row ∈ rows, row.username = username
  /-- Every row is in the database, and nothing else has changed. -/
  written : RowsWritten bcrypt contestId plan before rows after
  removedTeams : plan.removedTeams = before.participations.keys.countP (losesTeam before after)
  movedToMainGroup : plan.movedToMainGroup = before.participations.keys.countP fun key =>
    comesToMainGroup plan.mainGroupId before after key && withoutGroup contestId rows key

theorem followsPlan_of_written {Salt : Type} {bcrypt : Bcrypt Salt} {contestId mainGroupId : Nat}
    {rows : List ImportRow} {before after : Database}
    (hdistinct : (rows.map ImportRow.username).Nodup)
    (h : RowsWritten bcrypt contestId (planOf before contestId mainGroupId rows) before rows after) :
    FollowsPlan bcrypt contestId rows (planOf before contestId mainGroupId rows) before after where
  newUsers username := by
    unfold planOf
    dsimp only
    rw [List.mem_filter, Bool.not_eq_true', and_comm]
    refine and_congr_right fun hnew => ?_
    constructor
    · intro husername
      obtain ⟨row, hrow, rfl⟩ := List.mem_map.1 husername
      obtain ⟨user, huser, -⟩ := (h.rows row hrow).user
      unfold hasUser
      rw [huser]
      rfl
    · intro hafter
      by_contra hother
      unfold hasUser at hnew hafter
      rw [h.users username hother, hnew] at hafter
      cases hafter
  newParticipations key := by
    unfold planOf
    dsimp only
    rw [List.mem_filter, Bool.not_eq_true']
    constructor
    · rintro ⟨rfl, husername, hnew⟩
      obtain ⟨row, hrow, hsame⟩ := List.mem_map.1 husername
      obtain ⟨p, hp, -⟩ := (h.rows row hrow).participation
      rw [hsame] at hp
      unfold hasParticipation at hnew
      rw [Option.isSome_eq_false_iff, Option.isNone_iff_eq_none] at hnew
      exact ⟨hnew, by rw [hp]; rfl⟩
    · rintro ⟨hnew, hafter⟩
      have hchanged : after.participations.get? key ≠ before.participations.get? key := by
        intro hsame
        rw [hsame, hnew] at hafter
        cases hafter
      obtain ⟨row, hrow, rfl⟩ := row_of_changed h hchanged
      refine ⟨rfl, List.mem_map_of_mem hrow, ?_⟩
      unfold hasParticipation
      rw [hnew]
      rfl
  updatedUsers username := by
    unfold planOf
    dsimp only
    rw [List.mem_filter, List.mem_map, and_comm]
  updatedParticipations username := by
    unfold planOf
    dsimp only
    rw [List.mem_filter, List.mem_map, and_comm]
  written := h
  removedTeams := removedTeams_eq hdistinct h
  movedToMainGroup := movedToMainGroup_eq hdistinct h

/-- A contest import ends in a database that follows the plan.  Any second import of the same rows
has nothing to create, to clear or to move, and leaves that database exactly as it is. -/
def ImportsAsPlanned {Salt : Type} (bcrypt : Bcrypt Salt) (contestId : Nat) (rows : List ImportRow)
    (plan : ImportPlan) (before : Database) (draw : String → Draw Salt)
    (completed : List ImportRow) : Prop :=
  ∃ hashes after,
    hashPasswords bcrypt draw plan.newUsers plan.storedPasswords completed = .ok hashes ∧
    applyImport before contestId rows plan hashes = .ok after ∧
    FollowsPlan bcrypt contestId rows plan before after ∧
    ∀ (draw' : String → Draw Salt) (completed' : List ImportRow), completed'.Perm rows →
      ∃ plan' hashes', planImport after contestId rows = .ok plan' ∧
        plan'.newUsers = [] ∧ plan'.newParticipations = [] ∧ plan'.removedTeams = 0 ∧
        plan'.movedToMainGroup = 0 ∧
        hashPasswords bcrypt draw' plan'.newUsers plan'.storedPasswords completed' = .ok hashes' ∧
        applyImport after contestId rows plan' hashes' = .ok after

theorem importsAsPlanned_of_plan {Salt : Type} {bcrypt : Bcrypt Salt} {reader : CsvReader}
    {mapping : Mapping} {data : ByteArray} {rows : List ImportRow}
    (hrows : readRows reader contestImport mapping data = (rows, []))
    (haccepts : AcceptsPasswords bcrypt rows) {before : Database} {contestId : Nat}
    {plan : ImportPlan} (hplan : planImport before contestId rows = .ok plan)
    (draw : String → Draw Salt) {completed : List ImportRow} (hcompleted : completed.Perm rows) :
    ImportsAsPlanned bcrypt contestId rows plan before draw completed := by
  have hread := readRows_of_eq hrows
  obtain ⟨mainGroupId, hmain, herrors, rfl⟩ := planImport_eq_ok_iff.1 hplan
  have hfits : ∀ row ∈ rows, RowFits before contestId row := fun row hrow =>
    rowErrors_eq_nil_iff.1 (herrors row hrow)
  -- The first import.
  obtain ⟨hashes, hhashes, hget⟩ := hashPasswords_ok draw
    (planOf before contestId mainGroupId rows).newUsers
    (planOf before contestId mainGroupId rows).storedPasswords hread.distinct haccepts hcompleted
  have hof : ∀ row ∈ rows, ∃ password account,
      hashes.get? row.username = some (password, account) ∧
        HashesOf bcrypt before row password account := by
    intro row hrow
    obtain ⟨password, account, hok, hnone, hsettled, haccount⟩ := hashRow_ok draw
      (planOf before contestId mainGroupId rows).newUsers
      (planOf before contestId mainGroupId rows).storedPasswords (haccepts row hrow)
    refine ⟨password, account, hget row hrow _ hok, hnone, hsettled, fun hnew => haccount ?_⟩
    exact List.mem_filter.2 ⟨List.mem_map_of_mem hrow, by rw [hnew]; rfl⟩
  obtain ⟨after, hafter, hwritten⟩ := applyImport_ok hread.distinct hof
    (fun row hrow => teamIdOf_ok (hfits row hrow)) (fun row hrow => groupIdOf_ok (hfits row hrow))
  refine ⟨hashes, after, hhashes, hafter, followsPlan_of_written hread.distinct hwritten, ?_⟩
  -- The second one.
  intro draw' completed' hcompleted'
  obtain ⟨hnewUsers, hnewParticipations, hremoved, hmoved⟩ := planOf_after hwritten
  obtain ⟨hashes', hhashes', hget'⟩ := hashPasswords_ok draw'
    (planOf after contestId mainGroupId rows).newUsers
    (planOf after contestId mainGroupId rows).storedPasswords hread.distinct haccepts hcompleted'
  refine ⟨planOf after contestId mainGroupId rows, hashes', ?_, hnewUsers, hnewParticipations,
    hremoved, hmoved, hhashes', applyImport_after fun row hrow => ?_⟩
  · refine planImport_eq_ok_iff.2 ⟨mainGroupId, by rw [hwritten.contests, hmain], ?_, rfl⟩
    exact fun row hrow => rowErrors_eq_nil_iff.2 (rowFits_after hwritten hrow (hfits row hrow))
  · obtain ⟨p, hp, -, -, -, hstored⟩ := (hwritten.rows row hrow).participation
    have hcollected : (planOf after contestId mainGroupId rows).storedPasswords.get? row.username =
        p.password := by
      unfold planOf
      dsimp only
      rw [get?_collect, if_pos (List.mem_map_of_mem hrow), hp]
      rfl
    cases hpassword : row.password with
    | none =>
        obtain ⟨password, account, hok, hnone, -⟩ := hashRow_ok draw'
          (planOf after contestId mainGroupId rows).newUsers
          (planOf after contestId mainGroupId rows).storedPasswords (haccepts row hrow)
        exact applyRow_after hwritten hrow (hget' row hrow _ hok) (fun _ => hnone hpassword)
          (fun text p h => by rw [hpassword] at h; cases h)
    | some text =>
        obtain ⟨stored, hpStored, hsettled⟩ := hstored text hpassword
        obtain ⟨account, hok⟩ := hashRow_kept draw'
          (planOf after contestId mainGroupId rows).newUsers hpassword
          (hcollected.trans hpStored) hsettled
        refine applyRow_after hwritten hrow (hget' row hrow _ hok)
          (fun h => by rw [hpassword] at h; cases h) (fun _ p' _ hp' => ?_)
        rw [hp, Option.some.injEq] at hp'
        rw [← hp', hpStored]

end Admin
end ContestManagement
