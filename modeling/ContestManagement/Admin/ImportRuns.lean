import ContestManagement.Admin.PasswordSecrecy

/-!
# What a bulk import does

An import does what its plan says, and nothing else.  The rows of a file that was read without errors
have different usernames, so each of them writes a user and a participation of its own.  Importing
the same rows a second time finds what was written the first time: the same values are written
again, with the stored hashes kept.
-/

namespace ContestManagement
namespace Admin

open Lib
open Common

/-! ## The rows of a file without errors -/

section Rows

variable {kind : ImportKind} {columns : Dict Field Nat}

/-- What holds of the rows read so far. -/
structure ReadSoFar (columns : Dict Field Nat) (r : Reading) : Prop where
  distinct : (r.rows.map ImportRow.username).Nodup
  seen : ∀ row ∈ r.rows, (r.seen.get? row.username).isSome = true
  password : ∀ row ∈ r.rows, row.password.isSome = (columns.get? .password).isSome

theorem errors_of_readRecord {r : Reading} {record : Nat × List String}
    (h : (readRecord kind columns r record).errors = []) : r.errors = [] ∧
      (∀ field ∈ kind.fields, fieldErrors kind columns record.1 record.2 field = []) ∧
        usernameErrors record.1 (cell columns record.2 .username) r.seen = [] := by
  unfold readRecord at h
  dsimp only at h
  rw [List.append_eq_nil_iff, List.append_eq_nil_iff, List.append_eq_nil_iff,
    List.flatMap_eq_nil_iff] at h
  exact ⟨h.1.1.1, h.1.1.2, h.2⟩

/-- A row without errors has a username that was not seen before. -/
theorem username_new {r : Reading} {record : Nat × List String}
    (h : (readRecord kind columns r record).errors = []) :
    r.seen.get? (cell columns record.2 .username) = none ∧
      (readRecord kind columns r record).seen =
        r.seen.set (cell columns record.2 .username) record.1 := by
  obtain ⟨-, hfields, husername⟩ := errors_of_readRecord h
  have hfield := hfields .username (kind.includes .username (by decide))
  have hfill : (mustFill kind columns).contains .username = true := by
    unfold mustFill
    split <;> simp [kind.keyed]
  unfold fieldErrors at hfield
  dsimp only at hfield
  have hfilled : cell columns record.2 .username ≠ "" := by
    intro hempty
    rw [if_pos ⟨hfill, hempty⟩] at hfield
    cases hfield
  rw [if_neg fun hboth => hfilled hboth.2] at hfield
  have hnul : ¬hasNul (cell columns record.2 .username) = true := by
    intro hnul
    rw [if_pos ⟨by decide, hnul⟩] at hfield
    cases hfield
  unfold usernameErrors at husername
  rw [if_neg (not_or.2 ⟨hfilled, hnul⟩), List.append_eq_nil_iff] at husername
  have hnew : r.seen.get? (cell columns record.2 .username) = none := by
    cases hseen : r.seen.get? (cell columns record.2 .username) with
    | none => rfl
    | some first =>
        rw [hseen] at husername
        cases husername.2
  refine ⟨hnew, ?_⟩
  unfold readRecord see
  dsimp only
  rw [if_neg]
  simp [hfilled, hnul, hnew]

theorem readSoFar_readRecord {r : Reading} (hr : ReadSoFar columns r) {record : Nat × List String}
    (h : (readRecord kind columns r record).errors = []) :
    ReadSoFar columns (readRecord kind columns r record) := by
  obtain ⟨hnew, hseen⟩ := username_new h
  have hrows : (readRecord kind columns r record).rows =
      r.rows ++ [rowOf kind columns record.1 record.2] := rfl
  refine ⟨?_, fun row hrow => ?_, fun row hrow => ?_⟩
  · rw [hrows, List.map_append, List.map_singleton, List.nodup_append]
    refine ⟨hr.distinct, List.nodup_singleton _, fun username husername other hother => ?_⟩
    obtain ⟨row, hrow, rfl⟩ := List.mem_map.1 husername
    rw [List.mem_singleton] at hother
    rintro rfl
    have hsome := hr.seen row hrow
    rw [hother] at hsome
    have hnone : r.seen.get? (rowOf kind columns record.1 record.2).username = none := hnew
    rw [hnone] at hsome
    cases hsome
  · rw [hseen, Dict.get?_set]
    rw [hrows] at hrow
    rcases List.mem_append.1 hrow with hrow | hrow
    · split
      · rfl
      · exact hr.seen row hrow
    · rw [List.mem_singleton] at hrow
      have hthis : row.username = cell columns record.2 .username := hrow ▸ rfl
      rw [if_pos hthis]
      rfl
  · rw [hrows] at hrow
    rcases List.mem_append.1 hrow with hrow | hrow
    · exact hr.password row hrow
    · rw [List.mem_singleton] at hrow
      rw [hrow]
      unfold rowOf
      dsimp only
      cases (columns.get? .password).isSome <;> rfl

theorem readSoFar_foldl {records : List (Nat × List String)}
    (h : (records.foldl (readRecord kind columns) ⟨[], [], Dict.empty⟩).errors = []) :
    ReadSoFar columns (records.foldl (readRecord kind columns) ⟨[], [], Dict.empty⟩) := by
  induction records using List.reverseRecOn with
  | nil => exact ⟨List.nodup_nil, by simp, by simp⟩
  | append_singleton records record ih =>
      rw [List.foldl_append, List.foldl_cons, List.foldl_nil] at h ⊢
      exact readSoFar_readRecord (ih (errors_of_readRecord h).1) h

/-- The rows of a file that was read without errors. -/
structure ReadRows (kind : ImportKind) (rows : List ImportRow) : Prop where
  distinct : (rows.map ImportRow.username).Nodup
  password : Field.password ∈ kind.required → ∀ row ∈ rows, row.password.isSome = true

theorem readRows_of_eq {reader : CsvReader} {mapping : Mapping} {data : ByteArray}
    {rows : List ImportRow} (h : readRows reader kind mapping data = (rows, [])) :
    ReadRows kind rows := by
  unfold readRows at h
  cases hparse : parseFile reader data with
  | error message =>
      rw [hparse] at h
      cases h
  | ok parsed =>
      obtain ⟨header, records⟩ := parsed
      rw [hparse] at h
      dsimp only at h
      by_cases hcolumns : (Columns.ofHeader mapping kind header).errors ≠ []
      · rw [if_pos hcolumns] at h
        exact absurd (congrArg Prod.snd h) hcolumns
      · rw [if_neg hcolumns] at h
        have hfound : Columns.Found mapping kind.required header kind.fields
            (Columns.ofHeader mapping kind header).columns :=
          Columns.found_of_foldl (not_not.1 hcolumns)
        unfold Reading.result at h
        split at h
        case isTrue => cases h
        case isFalse =>
          rw [Prod.mk.injEq] at h
          have hread := readSoFar_foldl h.2
          refine ⟨h.1 ▸ hread.distinct, fun hrequired row hrow => ?_⟩
          rw [hread.password row (h.1 ▸ hrow), hfound.get?, if_pos]
          · rfl
          · have hfield := kind.includes .password (by decide)
            exact ⟨hfield, hfound.filled .password hfield hrequired⟩

end Rows

/-! ## The hashes -/

section Hashes

variable {Salt : Type} {bcrypt : Bcrypt Salt}

/-- A stored hash that is kept at an import of the password. -/
structure Settled (bcrypt : Bcrypt Salt) (password stored : String) : Prop where
  method : "bcrypt:".toList <+: stored.toList
  valid : validatePassword bcrypt stored password = .ok true

/-- The library takes a password as the one of its own hash. -/
def AcceptsOwnHash (bcrypt : Bcrypt Salt) (password : String) : Prop :=
  ∀ salt, validatePassword bcrypt (hashPassword bcrypt salt password) password = .ok true

theorem settled_hashPassword {password : String} (h : AcceptsOwnHash bcrypt password)
    (salt : Salt) : Settled bcrypt password (hashPassword bcrypt salt password) := by
  refine ⟨⟨(bcrypt.hashpw salt password).toList, ?_⟩, h salt⟩
  unfold hashPassword buildPassword
  rw [String.toList_append, String.toList_append]
  rfl

/-- Validating against a bcrypt hash does not raise. -/
theorem validatePassword_of_bcrypt {stored : String} (h : "bcrypt:".toList <+: stored.toList)
    (password : String) : ∃ valid, validatePassword bcrypt stored password = .ok valid := by
  obtain ⟨payload, hpayload⟩ := h
  have hstored : stored = buildPassword (String.ofList payload) "bcrypt" := by
    rw [← String.toList_inj, ← hpayload]
    unfold buildPassword
    rw [String.toList_append, String.toList_append, @String.toList_ofList payload,
      List.append_assoc]
    rfl
  rw [hstored]
  unfold validatePassword
  rw [parseAuthentication_buildPassword (by decide)]
  exact ⟨_, rfl⟩

theorem hashOrKeep_settled {password : String} (h : AcceptsOwnHash bcrypt password) (salt : Salt)
    (stored : Option String) :
    ∃ s, hashOrKeep bcrypt salt password stored = .ok s ∧ Settled bcrypt password s := by
  unfold hashOrKeep
  cases stored with
  | none => exact ⟨_, rfl, settled_hashPassword h salt⟩
  | some stored =>
      dsimp only
      by_cases hmethod : "bcrypt:".toList.isPrefixOf stored.toList = true
      · have hprefix := List.isPrefixOf_iff_prefix.1 hmethod
        obtain ⟨valid, hvalid⟩ := validatePassword_of_bcrypt hprefix password
        rw [if_pos hmethod, hvalid]
        cases valid with
        | true => exact ⟨stored, rfl, hprefix, hvalid⟩
        | false => exact ⟨_, rfl, settled_hashPassword h salt⟩
      · rw [if_neg hmethod]
        exact ⟨_, rfl, settled_hashPassword h salt⟩

theorem hashOrKeep_of_settled {password stored : String} (h : Settled bcrypt password stored)
    (salt : Salt) : hashOrKeep bcrypt salt password (some stored) = .ok stored := by
  unfold hashOrKeep
  dsimp only
  rw [if_pos (List.isPrefixOf_iff_prefix.2 h.method), h.valid]

theorem get?_collect {β : Type} (value : String → Option β) (keys : List String) (key : String) :
    (collect value keys).get? key = if key ∈ keys then value key else none := by
  unfold collect
  induction keys using List.reverseRecOn with
  | nil => simp [Dict.get?_empty]
  | append_singleton keys last ih =>
      rw [List.foldl_append, List.foldl_cons, List.foldl_nil]
      by_cases hsame : key = last
      · subst hsame
        cases hvalue : value key with
        | none =>
            dsimp only
            rw [ih, hvalue]
            simp
        | some b =>
            dsimp only
            rw [Dict.get?_set, if_pos rfl]
            simp
      · have hmem : key ∈ keys ++ [last] ↔ key ∈ keys := by simp [hsame]
        rw [if_congr hmem rfl rfl, ← ih]
        split
        · rw [Dict.get?_set, if_neg hsame]
        · rfl

/-- What the pool returns for rows with different usernames. -/
theorem hashInPool_ok {β : Type} {work : ImportRow → Except ImportExc β}
    {completed : List ImportRow} (hdistinct : (completed.map ImportRow.username).Nodup)
    (hwork : ∀ row ∈ completed, ∃ value, work row = .ok value) :
    ∃ result, hashInPool work completed = .ok result ∧
      ∀ row ∈ completed, ∀ value, work row = .ok value →
        result.get? row.username = some value := by
  refine foldlM_ok_of_forall (P := fun done (result : Dict String β) => ∀ row ∈ done,
    ∀ value, work row = .ok value → result.get? row.username = some value) (by simp) ?_
  intro done row result hinit hdone
  obtain ⟨value, hvalue⟩ := hwork row (hinit.subset (by simp))
  refine ⟨result.set row.username value, by simp [hvalue, bind, Except.bind, pure, Except.pure],
    fun other hother value' hvalue' => ?_⟩
  rw [Dict.get?_set]
  rcases List.mem_append.1 hother with hother | hother
  · -- The usernames differ.
    have hne : other.username ≠ row.username := by
      intro heq
      have hmem := List.mem_map_of_mem (f := ImportRow.username) hother
      rw [heq] at hmem
      exact not_mem_of_initial hinit hdistinct hmem
    rw [if_neg hne]
    exact hdone other hother value' hvalue'
  · rw [List.mem_singleton] at hother
    subst hother
    rw [hvalue, Except.ok.injEq] at hvalue'
    rw [if_pos rfl, hvalue']

end Hashes

end Admin
end ContestManagement
