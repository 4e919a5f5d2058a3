import ContestManagement.Admin.ImportPlan

/-!
# The errors of an import and its passwords

Two files that differ only in their passwords give the same errors, so that no error tells anything
of a password but whether it is empty, too long or has control characters.  No other field may be
mapped to the column of the password, so what is read for the other fields is the same in both.
-/

namespace ContestManagement
namespace Admin

open Lib

/-! ## The columns -/

namespace Columns

variable {mapping : Mapping} {required : List Field} {header : List String}

theorem report_errors_ne_nil (s : Columns) (message : String) : (s.report message).errors ≠ [] := by
  unfold report
  split
  case isTrue h =>
    intro hempty
    rw [hempty] at h
    simp at h
  case isFalse => simp

/-- A field that gave no error: where it is read from. -/
structure Assigned (mapping : Mapping) (required : List Field) (header : List String)
    (s s' : Columns) (field : Field) : Prop where
  clean : s.errors = []
  alone : mapping.header field ≠ "" → mapping.header field = mapping.header .password →
    field = .password
  columns : ∀ other, s'.columns.get? other =
    if other = field ∧ mapping.header field ≠ "" then some (header.idxOf (mapping.header field))
    else s.columns.get? other
  present : mapping.header field ≠ "" → mapping.header field ∈ header
  filled : field ∈ required → mapping.header field ≠ ""

theorem assigned_of_assign {s : Columns} {field : Field}
    (h : (assign mapping required header s field).errors = []) :
    Assigned mapping required header s (assign mapping required header s field) field := by
  unfold assign at h ⊢
  by_cases hname : mapping.header field = ""
  · simp only [hname, if_true] at h ⊢
    by_cases hrequired : required.contains field = true
    · rw [if_pos hrequired] at h
      simp at h
    · rw [if_neg hrequired] at h ⊢
      exact ⟨h, fun hne => absurd hname hne, fun other => by simp [hname],
        fun hne => absurd hname hne, fun hin => absurd (List.contains_iff_mem.2 hin) hrequired⟩
  · simp only [if_neg hname] at h ⊢
    by_cases hpresent : header.contains (mapping.header field) = true
    · simp only [hpresent, if_true] at h ⊢
      by_cases hshared : mapping.header field = mapping.header .password ∧ field ≠ .password
      · simp only [if_pos hshared] at h
        exact absurd h (report_errors_ne_nil _ _)
      · simp only [if_neg hshared] at h ⊢
        refine ⟨h, fun _ hsame => ?_, fun other => ?_, fun _ => by simpa using hpresent,
          fun _ => hname⟩
        · by_contra hother
          exact hshared ⟨hsame, hother⟩
        · rw [Dict.get?_set]
          simp [hname]
    · -- The column is missing, which is an error.
      exfalso
      simp only [hpresent, Bool.false_eq_true, if_false] at h
      split at h
      · exact report_errors_ne_nil _ _ h
      · split at h
        · exact report_errors_ne_nil _ _ h
        · exact report_errors_ne_nil _ _ h

/-- The columns of some fields that gave no errors. -/
structure Found (mapping : Mapping) (required : List Field) (header : List String)
    (fields : List Field) (columns : Dict Field Nat) : Prop where
  get? : ∀ field, columns.get? field =
    if field ∈ fields ∧ mapping.header field ≠ "" then some (header.idxOf (mapping.header field))
    else none
  present : ∀ field ∈ fields, mapping.header field ≠ "" → mapping.header field ∈ header
  alone : ∀ field ∈ fields, mapping.header field ≠ "" →
    mapping.header field = mapping.header .password → field = .password
  filled : ∀ field ∈ fields, field ∈ required → mapping.header field ≠ ""

theorem found_of_foldl {fields : List Field}
    (h : (fields.foldl (assign mapping required header) ⟨[], Dict.empty⟩).errors = []) :
    Found mapping required header fields
      (fields.foldl (assign mapping required header) ⟨[], Dict.empty⟩).columns := by
  induction fields using List.reverseRecOn with
  | nil => exact ⟨fun field => by simp [Dict.get?_empty], by simp, by simp, by simp⟩
  | append_singleton fields field ih =>
      rw [List.foldl_append, List.foldl_cons, List.foldl_nil] at h ⊢
      have hassigned := assigned_of_assign h
      have hfound := ih hassigned.clean
      refine ⟨fun other => ?_, fun other hother => ?_, fun other hother => ?_,
        fun other hother => ?_⟩
      · rw [hassigned.columns, hfound.get?]
        by_cases hsame : other = field
        · subst hsame
          by_cases hname : mapping.header other = ""
          · simp [hname]
          · simp [hname]
        · simp [hsame]
      · rcases List.mem_append.1 hother with hother | hother
        · exact hfound.present other hother
        · rw [List.mem_singleton] at hother
          exact hother ▸ hassigned.present
      · rcases List.mem_append.1 hother with hother | hother
        · exact hfound.alone other hother
        · rw [List.mem_singleton] at hother
          exact hother ▸ hassigned.alone
      · rcases List.mem_append.1 hother with hother | hother
        · exact hfound.filled other hother
        · rw [List.mem_singleton] at hother
          exact hother ▸ hassigned.filled

end Columns

/-- The column that is mapped to the password, if any. -/
def passwordColumn (mapping : Mapping) (header : List String) : Option Nat :=
  if mapping.header .password ≠ "" ∧ mapping.header .password ∈ header then
    some (header.idxOf (mapping.header .password))
  else none

namespace Columns.Found

variable {mapping : Mapping} {required : List Field} {header : List String}
variable {fields : List Field}
variable {columns : Dict Field Nat}

theorem password (h : Found mapping required header fields columns) (hfield : Field.password ∈ fields) :
    columns.get? .password = passwordColumn mapping header := by
  rw [h.get?, passwordColumn]
  by_cases hname : mapping.header .password = ""
  · simp [hname]
  · simp [hname, hfield, h.present .password hfield hname]

/-- No other field is read from the column of the password. -/
theorem ne_passwordColumn (h : Found mapping required header fields columns) {field : Field} {index : Nat}
    (hfield : field ≠ .password) (hindex : columns.get? field = some index) :
    passwordColumn mapping header ≠ some index := by
  intro hpassword
  rw [h.get?] at hindex
  split at hindex
  case isFalse => cases hindex
  case isTrue hmapped =>
    rw [Option.some.injEq] at hindex
    unfold passwordColumn at hpassword
    split at hpassword
    case isFalse => cases hpassword
    case isTrue hpresent =>
      rw [Option.some.injEq] at hpassword
      have hsame : mapping.header field = mapping.header .password :=
        (List.idxOf_inj (h.present field hmapped.1 hmapped.2)).1 (hindex.trans hpassword.symm)
      exact hfield (h.alone field hmapped.1 hmapped.2 hsame)

end Columns.Found

/-! ## Files that differ in their passwords -/

/-- Passwords that an import treats alike. -/
structure PasswordsAlike (password password' : String) : Prop where
  empty : password = "" ↔ password' = ""
  long : maxPasswordBytes < password.utf8ByteSize ↔ maxPasswordBytes < password'.utf8ByteSize
  control : hasControl password = hasControl password'

/-- Rows of two files that differ only in the cell of one column, which have passwords alike. -/
structure CellsAlike (column : Option Nat) (cells cells' : List String) : Prop where
  length : cells.length = cells'.length
  same : ∀ index, column ≠ some index → cells[index]? = cells'[index]?
  password : ∀ index text text', column = some index → cells[index]? = some text →
    cells'[index]? = some text' → PasswordsAlike (strip text) (strip text')

/-- Rows that are equal except for their passwords. -/
structure SameButPassword (row row' : ImportRow) : Prop where
  line : row.line = row'.line
  username : row.username = row'.username
  firstName : row.firstName = row'.firstName
  lastName : row.lastName = row'.lastName
  password : row.password.isSome = row'.password.isSome
  team : row.team = row'.team
  group : row.group = row'.group

namespace CellsAlike

variable {column : Option Nat} {cells cells' : List String}

theorem symm (h : CellsAlike column cells cells') : CellsAlike column cells' cells where
  length := h.length.symm
  same index hindex := (h.same index hindex).symm
  password index text text' hcolumn htext htext' :=
    let halike := h.password index text' text hcolumn htext' htext
    ⟨halike.empty.symm, halike.long.symm, halike.control.symm⟩

theorem any_of_any (h : CellsAlike column cells cells')
    (hany : (cells.any fun text => strip text ≠ "") = true) :
    (cells'.any fun text => strip text ≠ "") = true := by
  obtain ⟨text, htext, hfilled⟩ := List.any_eq_true.1 hany
  obtain ⟨index, hindex, hget⟩ := List.getElem_of_mem htext
  have hget? : cells[index]? = some text := List.getElem?_eq_some_iff.2 ⟨hindex, hget⟩
  have hindex' : index < cells'.length := h.length ▸ hindex
  have hget?' : cells'[index]? = some cells'[index] := List.getElem?_eq_getElem hindex'
  refine List.any_eq_true.2 ⟨cells'[index], List.getElem_mem hindex', ?_⟩
  by_cases hcolumn : column = some index
  · have halike := h.password index text _ hcolumn hget? hget?'
    simpa [← halike.empty] using hfilled
  · rw [h.same index hcolumn, hget?', Option.some.injEq] at hget?
    exact hget? ▸ hfilled

/-- Blank rows of the one file are blank in the other one. -/
theorem any_eq (h : CellsAlike column cells cells') :
    (cells.any fun text => strip text ≠ "") = cells'.any fun text => strip text ≠ "" := by
  rw [Bool.eq_iff_iff]
  exact ⟨h.any_of_any, h.symm.any_of_any⟩

end CellsAlike

/-- Numbered records of two files that differ only in one column. -/
def RecordsAlike (column : Option Nat) (record record' : Nat × List String) : Prop :=
  record.1 = record'.1 ∧ CellsAlike column record.2 record'.2

theorem dataRecords_alike {column : Option Nat} {rows rows' : List (List String)}
    (h : List.Forall₂ (CellsAlike column) rows rows') :
    List.Forall₂ (RecordsAlike column) (dataRecords rows) (dataRecords rows') := by
  unfold dataRecords
  generalize 2 = first
  induction h generalizing first with
  | nil => exact .nil
  | @cons cells cells' rest rest' hcells _ ih =>
      rw [List.zipIdx_cons, List.zipIdx_cons, List.filterMap_cons, List.filterMap_cons]
      dsimp only
      rw [hcells.any_eq]
      cases hblank : cells'.any fun text => strip text ≠ "" with
      | false => exact ih (first + 1)
      | true => exact .cons ⟨rfl, hcells⟩ (ih (first + 1))

/-! ## What is read -/

section Reading

variable {kind : ImportKind} {mapping : Mapping} {header : List String}
variable {columns : Dict Field Nat} {cells cells' : List String}

theorem cell_same (hfound : Columns.Found mapping kind.required header kind.fields columns)
    (h : CellsAlike (passwordColumn mapping header) cells cells') {field : Field}
    (hfield : field ≠ .password) : cell columns cells field = cell columns cells' field := by
  unfold cell
  cases hindex : columns.get? field with
  | none => rfl
  | some index =>
      rw [Option.bind_some, Option.bind_some,
        h.same index (hfound.ne_passwordColumn hfield hindex)]

theorem cell_password (hfound : Columns.Found mapping kind.required header kind.fields columns)
    (h : CellsAlike (passwordColumn mapping header) cells cells') :
    PasswordsAlike (cell columns cells .password) (cell columns cells' .password) := by
  have hcolumn := hfound.password (kind.includes .password (by decide))
  unfold cell
  cases hindex : columns.get? .password with
  | none => exact ⟨Iff.rfl, Iff.rfl, rfl⟩
  | some index =>
      rw [Option.bind_some, Option.bind_some]
      by_cases hlength : index < cells.length
      · have hlength' : index < cells'.length := h.length ▸ hlength
        rw [List.getElem?_eq_getElem hlength, List.getElem?_eq_getElem hlength']
        exact h.password index _ _ (hcolumn.symm.trans hindex) (List.getElem?_eq_getElem hlength)
          (List.getElem?_eq_getElem hlength')
      · have hlength' : ¬index < cells'.length := h.length ▸ hlength
        rw [List.getElem?_eq_none (not_lt.1 hlength), List.getElem?_eq_none (not_lt.1 hlength')]
        exact ⟨Iff.rfl, Iff.rfl, rfl⟩

theorem fieldErrors_same (hfound : Columns.Found mapping kind.required header kind.fields columns)
    (h : CellsAlike (passwordColumn mapping header) cells cells') (line : Nat) (field : Field) :
    fieldErrors kind columns line cells field = fieldErrors kind columns line cells' field := by
  unfold fieldErrors
  dsimp only
  by_cases hfield : field = .password
  · subst hfield
    have halike := cell_password hfound h
    simp [halike.empty]
  · rw [cell_same hfound h hfield]

theorem passwordErrors_same (line : Nat) {password password' : String}
    (h : PasswordsAlike password password') :
    passwordErrors line password = passwordErrors line password' := by
  unfold passwordErrors
  simp only [h.long, h.control]

theorem optionalCell_same (hfound : Columns.Found mapping kind.required header kind.fields columns)
    (h : CellsAlike (passwordColumn mapping header) cells cells') {field : Field}
    (hfield : field ≠ .password) :
    optionalCell kind columns cells field = optionalCell kind columns cells' field := by
  unfold optionalCell
  rw [cell_same hfound h hfield]

theorem rowOf_same (hfound : Columns.Found mapping kind.required header kind.fields columns)
    (h : CellsAlike (passwordColumn mapping header) cells cells') (line : Nat) :
    SameButPassword (rowOf kind columns line cells) (rowOf kind columns line cells') where
  line := rfl
  username := cell_same hfound h (by decide)
  firstName := cell_same hfound h (by decide)
  lastName := cell_same hfound h (by decide)
  password := by
    unfold rowOf
    dsimp only
    split <;> rfl
  team := optionalCell_same hfound h (by decide)
  group := optionalCell_same hfound h (by decide)

/-- Two readings that have come equally far. -/
structure ReadingsAlike (r r' : Reading) : Prop where
  rows : List.Forall₂ SameButPassword r.rows r'.rows
  errors : r.errors = r'.errors
  seen : r.seen = r'.seen

theorem ReadingsAlike.result {r r' : Reading} (h : ReadingsAlike r r') :
    r.result.2 = r'.result.2 ∧ List.Forall₂ SameButPassword r.result.1 r'.result.1 := by
  have hempty : r.rows = [] ↔ r'.rows = [] :=
    ⟨fun hnil => List.forall₂_nil_left_iff.1 (hnil ▸ h.rows),
      fun hnil => List.forall₂_nil_right_iff.1 (hnil ▸ h.rows)⟩
  unfold Reading.result
  by_cases hrows : r.rows = []
  · rw [if_pos hrows, if_pos (hempty.1 hrows)]
    exact ⟨rfl, .nil⟩
  · rw [if_neg hrows, if_neg (mt hempty.2 hrows)]
    exact ⟨h.errors, h.rows⟩

theorem readRecord_alike (hfound : Columns.Found mapping kind.required header kind.fields columns)
    {r r' : Reading} (hr : ReadingsAlike r r') {record record' : Nat × List String}
    (h : RecordsAlike (passwordColumn mapping header) record record') :
    ReadingsAlike (readRecord kind columns r record) (readRecord kind columns r' record') := by
  obtain ⟨line, cells⟩ := record
  obtain ⟨line', cells'⟩ := record'
  obtain ⟨hline, hcells⟩ := h
  dsimp only at hline hcells
  subst hline
  have husername := @cell_same kind _ _ _ _ _ hfound hcells .username (by decide)
  refine ⟨List.rel_append hr.rows (.cons (rowOf_same hfound hcells line) .nil), ?_, ?_⟩
  · unfold readRecord
    dsimp only
    have hfields : fieldErrors kind columns line cells = fieldErrors kind columns line cells' :=
      funext fun field => fieldErrors_same hfound hcells line field
    rw [hr.errors, hr.seen, hfields, passwordErrors_same line (cell_password hfound hcells),
      husername]
  · unfold readRecord
    dsimp only
    rw [hr.seen, husername]

theorem readRecords_alike (hfound : Columns.Found mapping kind.required header kind.fields columns)
    {records records' : List (Nat × List String)}
    (h : List.Forall₂ (RecordsAlike (passwordColumn mapping header)) records records')
    {r r' : Reading} (hr : ReadingsAlike r r') :
    ReadingsAlike (records.foldl (readRecord kind columns) r)
      (records'.foldl (readRecord kind columns) r') := by
  induction h generalizing r r' with
  | nil => exact hr
  | cons hrecord _ ih => exact ih (readRecord_alike hfound hr hrecord)

end Reading

/-- A file that the CSV reader takes, with the rows that it yields. -/
structure Parses (reader : CsvReader) (data : ByteArray) (delimiter : Char)
    (rows : List (List String)) : Prop where
  size : data.size ≤ maxBytes
  text : ∃ text, decodeUtf8Sig data = some text ∧ delimiterOf text = delimiter ∧
    reader delimiter text = ⟨rows, none⟩

theorem parseFile_of_parses {reader : CsvReader} {data : ByteArray} {delimiter : Char}
    {header : List String} {rows : List (List String)}
    (h : Parses reader data delimiter (header :: rows)) :
    parseFile reader data =
      if maxRows < ((dataRecords rows).take (maxRows + 1)).length then
        .error s!"el archivo pasa de {maxRows} filas"
      else .ok (header.map strip, (dataRecords rows).take (maxRows + 1)) := by
  obtain ⟨text, htext, hdelimiter, hreader⟩ := h.text
  subst hdelimiter
  unfold parseFile
  rw [if_neg (not_lt.2 h.size), htext]
  dsimp only
  rw [hreader]
  simp

/-- The errors of a plan. -/
def planErrors (plan : Except (List String) ImportPlan) : List String :=
  match plan with
  | .ok _ => []
  | .error errors => errors

theorem rowErrors_same (db : Database) (contestId : Nat) {row row' : ImportRow}
    (h : SameButPassword row row') : rowErrors db contestId row = rowErrors db contestId row' := by
  have hnone : row.password.isNone = row'.password.isNone := by
    rw [← Option.not_isSome, ← Option.not_isSome, h.password]
  unfold rowErrors
  rw [h.team, h.group, h.line, h.username, hnone]

theorem planErrors_same (db : Database) (contestId : Nat) {rows rows' : List ImportRow}
    (h : List.Forall₂ SameButPassword rows rows') :
    planErrors (planImport db contestId rows) = planErrors (planImport db contestId rows') := by
  have herrors : rows.flatMap (rowErrors db contestId) =
      rows'.flatMap (rowErrors db contestId) := by
    induction h with
    | nil => rfl
    | cons hrow _ ih => rw [List.flatMap_cons, List.flatMap_cons, rowErrors_same db contestId hrow, ih]
  unfold planImport
  cases db.contests.get? contestId with
  | none => rfl
  | some main =>
      cases main with
      | none => rfl
      | some mainGroupId =>
          dsimp only
          rw [herrors]
          split <;> rfl

/-- No error of an import tells anything of the passwords but whether they are empty, too long or
have control characters: two files that agree on this give the same errors, and rows that are equal
except for their passwords, which are planned with the same errors. -/
theorem errors_hide_passwords (reader : CsvReader) (kind : ImportKind) (mapping : Mapping)
    {data data' : ByteArray} {delimiter : Char} {header : List String}
    {rows rows' : List (List String)} (hdata : Parses reader data delimiter (header :: rows))
    (hdata' : Parses reader data' delimiter (header :: rows'))
    (halike : List.Forall₂ (CellsAlike (passwordColumn mapping (header.map strip))) rows rows') :
    (readRows reader kind mapping data).2 = (readRows reader kind mapping data').2 ∧
      List.Forall₂ SameButPassword (readRows reader kind mapping data).1
        (readRows reader kind mapping data').1 ∧
      ∀ db contestId,
        planErrors (planImport db contestId (readRows reader kind mapping data).1) =
          planErrors (planImport db contestId (readRows reader kind mapping data').1) := by
  have hboth : (readRows reader kind mapping data).2 = (readRows reader kind mapping data').2 ∧
      List.Forall₂ SameButPassword (readRows reader kind mapping data).1
        (readRows reader kind mapping data').1 := by
    have hrecords := dataRecords_alike halike
    have htaken : List.Forall₂ (RecordsAlike (passwordColumn mapping (header.map strip)))
        ((dataRecords rows).take (maxRows + 1)) ((dataRecords rows').take (maxRows + 1)) :=
      List.forall₂_take _ hrecords
    unfold readRows
    rw [parseFile_of_parses hdata, parseFile_of_parses hdata', htaken.length_eq]
    by_cases hmany : maxRows < ((dataRecords rows').take (maxRows + 1)).length
    · rw [if_pos hmany, if_pos hmany]
      exact ⟨rfl, .nil⟩
    · rw [if_neg hmany, if_neg hmany]
      dsimp only
      by_cases hcolumns : (Columns.ofHeader mapping kind (header.map strip)).errors ≠ []
      · rw [if_pos hcolumns, if_pos hcolumns]
        exact ⟨rfl, .nil⟩
      · rw [if_neg hcolumns, if_neg hcolumns]
        have hfound : Columns.Found mapping kind.required (header.map strip) kind.fields
            (Columns.ofHeader mapping kind (header.map strip)).columns :=
          Columns.found_of_foldl (not_not.1 hcolumns)
        have hstart : ReadingsAlike ⟨[], [], Dict.empty⟩ ⟨[], [], Dict.empty⟩ := ⟨.nil, rfl, rfl⟩
        exact (readRecords_alike hfound htaken hstart).result
  exact ⟨hboth.1, hboth.2, fun db contestId => planErrors_same db contestId hboth.2⟩

/-- A CSV reader, on texts without quotes. -/
def plainReader : CsvReader := fun delimiter text =>
  ⟨((text.toList.splitOn '\n').filter (· ≠ [])).map fun line =>
    (line.splitOn delimiter).map String.ofList, none⟩

/-- A file with one contestant, whose group is misspelt. -/
def anaText (password : String) : String :=
  "usuario;nombre;apellido;clave;grupo\nana;Ana;Paz;" ++ password ++ ";mian\n"

def anaFile (password : String) : ByteArray := (anaText password).toUTF8

def anaMapping : Mapping
  | .username => some "usuario"
  | .firstName => some "nombre"
  | .lastName => some "apellido"
  | .password => some "clave"
  | .team => none
  | .group => some "grupo"

theorem errors_hide_passwords_ana :
    (readRows plainReader contestImport anaMapping (anaFile "abeja")).2 =
        (readRows plainReader contestImport anaMapping (anaFile "zorro")).2 ∧
      List.Forall₂ SameButPassword
        (readRows plainReader contestImport anaMapping (anaFile "abeja")).1
        (readRows plainReader contestImport anaMapping (anaFile "zorro")).1 := by
  have hparses : ∀ password ∈ ["abeja", "zorro"], Parses plainReader (anaFile password) ';'
      [["usuario", "nombre", "apellido", "clave", "grupo"], ["ana", "Ana", "Paz", password, "mian"]] := by
    intro password hpassword
    rcases List.mem_pair.1 hpassword with rfl | rfl
    · exact ⟨by decide +kernel, anaText "abeja", by decide +kernel, by decide +kernel,
        by decide +kernel⟩
    · exact ⟨by decide +kernel, anaText "zorro", by decide +kernel, by decide +kernel,
        by decide +kernel⟩
  have hcells : CellsAlike (some 3) ["ana", "Ana", "Paz", "abeja", "mian"]
      ["ana", "Ana", "Paz", "zorro", "mian"] := by
    refine ⟨rfl, fun index hindex => ?_, fun index text text' hindex htext htext' => ?_⟩
    · rcases index with - | - | - | - | - | index
      case succ.succ.succ.zero => exact absurd rfl hindex
      all_goals rfl
    · rw [Option.some.injEq] at hindex
      subst hindex
      cases htext
      cases htext'
      exact ⟨by decide +kernel, by decide +kernel, by decide +kernel⟩
  have hboth := errors_hide_passwords plainReader contestImport anaMapping
    (hparses "abeja" (by decide)) (hparses "zorro" (by decide)) (.cons hcells .nil)
  exact ⟨hboth.1, hboth.2.1⟩

end Admin
end ContestManagement
