import ContestManagement.Lib.Dict

/-!
# Reading the file of a bulk import

`read_rows` of `cms/server/admin/bulkimport.py` takes a CSV file and a header for each field of the
import, and returns the rows of the file and the errors to show.  Any column may be mapped to any
field, and without a header row the first contestant's row is taken for it.

The CSV reader is a parameter: the rows that it yields from a text, and what it then raises.
-/

namespace ContestManagement
namespace Admin

open Lib

/-- The fields of an import. -/
inductive Field
  | username
  | firstName
  | lastName
  | password
  | team
  | group
  deriving DecidableEq

namespace Field

def name : Field → String
  | username => "username"
  | firstName => "first_name"
  | lastName => "last_name"
  | password => "password"
  | team => "team"
  | group => "group"

/-- `LABELS`. -/
def label : Field → String
  | username => "el usuario"
  | firstName => "el nombre"
  | lastName => "el apellido"
  | password => "la contraseña"
  | team => "el equipo"
  | group => "el grupo"

/-- `EMPTY_MESSAGES`; the team and the group may always be empty. -/
def emptyMessage : Field → String
  | username => "el usuario está vacío"
  | firstName => "el nombre está vacío"
  | lastName => "el apellido está vacío"
  | password => "la contraseña está vacía"
  | team => ""
  | group => ""

/-- Spanish contracts "de el" into "del". -/
def ofLabel (field : Field) : String := ("de " ++ field.label).replace "de el " "del "

end Field

/-- The fields of one kind of import, and those that must be filled in. -/
structure ImportKind where
  fields : List Field
  required : List Field
  includes : ∀ field ∈ [Field.username, .firstName, .lastName, .password], field ∈ fields
  keyed : Field.username ∈ required

/-- `FIELDS` and `REQUIRED`. -/
def contestImport : ImportKind :=
  ⟨[.username, .firstName, .lastName, .password, .team, .group], [.username, .firstName, .lastName],
    by decide, by decide⟩

/-- `USER_FIELDS` and `USER_REQUIRED`. -/
def userImport : ImportKind :=
  ⟨[.username, .firstName, .lastName, .password], [.username, .firstName, .lastName, .password],
    by decide, by decide⟩

def maxBytes : Nat := 2 * 1024 * 1024

def maxRows : Nat := 5000

def maxPasswordBytes : Nat := 72

/-- One data row of the file; the password is `None` without a password column. -/
structure ImportRow where
  line : Nat
  username : String
  firstName : String
  lastName : String
  password : Option String
  team : Option String
  group : Option String
  deriving DecidableEq

/-! ## Texts -/

/-- `str.isspace` of a character. -/
def isSpace (c : Char) : Bool :=
  let n := c.toNat
  (9 ≤ n && n ≤ 13) || (28 ≤ n && n ≤ 32) || n = 0x85 || n = 0xa0 || n = 0x1680 ||
    (0x2000 ≤ n && n ≤ 0x200a) || n = 0x2028 || n = 0x2029 || n = 0x202f || n = 0x205f || n = 0x3000

/-- `str.strip`. -/
def strip (s : String) : String :=
  String.ofList (((s.toList.dropWhile isSpace).reverse.dropWhile isSpace).reverse)

/-- `PASSWORD_CONTROL_CHARACTERS.search`. -/
def hasControl (s : String) : Bool := s.toList.any fun c => c.toNat ≤ 0x1f || c.toNat = 0x7f

def hasNul (s : String) : Bool := s.toList.any fun c => c.toNat = 0

/-- `re.fullmatch(r"[A-Za-z0-9_-]+", username)`. -/
def isCodename (s : String) : Bool :=
  s ≠ "" && s.toList.all fun c => c.isAlphanum || c = '_' || c = '-'

/-- `data.decode("utf-8-sig")`. -/
def decodeUtf8Sig (data : ByteArray) : Option String :=
  let bom := [0xef, 0xbb, 0xbf]
  String.fromUTF8? (if (data.extract 0 3).data.toList = bom then data.extract 3 data.size else data)

/-- The first line, from which the delimiter is guessed. -/
def delimiterOf (text : String) : Char :=
  let firstLine := text.toList.takeWhile (· ≠ '\n')
  if firstLine.count ',' < firstLine.count ';' then ';' else ','

/-- What the CSV reader yields from a text, and what it raises after it. -/
structure CsvTable where
  rows : List (List String)
  error : Option String
  deriving DecidableEq

/-- `csv.reader(io.StringIO(text), delimiter=delimiter)`. -/
abbrev CsvReader := Char → String → CsvTable

/-- `_data_records`: the rows that are not blank, numbered from the header. -/
def dataRecords (rows : List (List String)) : List (Nat × List String) :=
  (rows.zipIdx 2).filterMap fun item =>
    if item.1.any fun cell => strip cell ≠ "" then some (item.2, item.1) else none

/-- The header and the records of a file, or the error to show. -/
def parseFile (reader : CsvReader) (data : ByteArray) :
    Except String (List String × List (Nat × List String)) :=
  if maxBytes < data.size then .error "el archivo pasa de 2 MB"
  else
    match decodeUtf8Sig data with
    | none => .error "el archivo no está en UTF-8"
    | some text =>
        let table := reader (delimiterOf text) text
        let invalid := "el archivo no es un CSV válido"
        match table.rows with
        | [] => if table.error.isSome then .error invalid else .error "el archivo está vacío"
        | header :: rows =>
            let records := (dataRecords rows).take (maxRows + 1)
            -- An error that comes after the last record taken is never met.
            if table.error.isSome && records.length < maxRows + 1 then .error invalid
            else if maxRows < records.length then .error s!"el archivo pasa de {maxRows} filas"
            else .ok (header.map strip, records)

/-! ## The columns of the fields -/

/-- The header that is mapped to each field, if any. -/
abbrev Mapping := Field → Option String

/-- `(mapping.get(field) or "").strip()`. -/
def Mapping.header (mapping : Mapping) (field : Field) : String := strip ((mapping field).getD "")

/-- The columns found so far, and the errors. -/
structure Columns where
  errors : List String
  columns : Dict Field Nat

namespace Columns

/-- Report a message once. -/
def report (s : Columns) (message : String) : Columns :=
  if s.errors.contains message then s else { s with errors := s.errors ++ [message] }

/-- What the loop over the fields does with one of them. -/
def assign (mapping : Mapping) (required : List Field) (header : List String) (s : Columns)
    (field : Field) : Columns :=
  let name := mapping.header field
  let passwordName := mapping.header .password
  if name = "" then
    if required.contains field then
      { s with errors := s.errors ++
        [s!"falta asignar la columna para {field.label} ({field.name})"] }
    else s
  else
    let s :=
      if header.contains name then s
      else if name = passwordName then
        s.report "la columna asignada a la contraseña no está en el archivo"
      else s.report s!"la columna {name} no está en el archivo"
    let s :=
      if name = passwordName ∧ field ≠ .password then
        s.report "la columna de la contraseña está asignada a más de un campo"
      else s
    if header.contains name then { s with columns := s.columns.set field (header.idxOf name) } else s

/-- The columns of all the fields. -/
def ofHeader (mapping : Mapping) (kind : ImportKind) (header : List String) : Columns :=
  kind.fields.foldl (assign mapping kind.required header) ⟨[], Dict.empty⟩

end Columns

/-! ## The rows -/

section Rows

variable (kind : ImportKind) (columns : Dict Field Nat)

/-- The value of a field in a row. -/
def cell (cells : List String) (field : Field) : String :=
  match (columns.get? field).bind (cells[·]?) with
  | none => ""
  | some text => strip text

/-- `values.get(field) or None`. -/
def optionalCell (cells : List String) (field : Field) : Option String :=
  if field ∈ kind.fields ∧ cell columns cells field ≠ "" then some (cell columns cells field)
  else none

/-- A mapped password must be in every row, even where it is optional. -/
def mustFill : List Field :=
  if (columns.get? .password).isSome then .password :: kind.required else kind.required

/-- What is wrong with one value. -/
def fieldErrors (line : Nat) (cells : List String) (field : Field) : List String :=
  let value := cell columns cells field
  if (mustFill kind columns).contains field ∧ value = "" then
    [s!"fila {line}: {field.emptyMessage}"]
  else if field ≠ .password ∧ hasNul value = true then
    [s!"fila {line}: la celda {field.ofLabel} tiene caracteres no permitidos"]
  else []

/-- What is wrong with a password. -/
def passwordErrors (line : Nat) (password : String) : List String :=
  (if maxPasswordBytes < password.utf8ByteSize then
    [s!"fila {line}: la contraseña pasa de {maxPasswordBytes} bytes"] else []) ++
  (if hasControl password then [s!"fila {line}: la contraseña tiene caracteres no permitidos"]
    else [])

/-- What is wrong with a username; a NUL has been reported before. -/
def usernameErrors (line : Nat) (username : String) (seen : Dict String Nat) : List String :=
  if username = "" ∨ hasNul username = true then []
  else
    (if isCodename username then []
      else [s!"fila {line}: el usuario {username} tiene caracteres no permitidos " ++
        "(solo letras sin acentos, números, _ y -)"]) ++
    match seen.get? username with
    | some first => [s!"fila {line}: el usuario {username} está repetido (fila {first})"]
    | none => []

/-- The usernames seen, with their rows. -/
def see (line : Nat) (username : String) (seen : Dict String Nat) : Dict String Nat :=
  if username = "" ∨ hasNul username = true ∨ (seen.get? username).isSome = true then seen
  else seen.set username line

/-- The rows read so far. -/
structure Reading where
  rows : List ImportRow
  errors : List String
  seen : Dict String Nat

/-- The row of a record. -/
def rowOf (line : Nat) (cells : List String) : ImportRow where
  line
  username := cell columns cells .username
  firstName := cell columns cells .firstName
  lastName := cell columns cells .lastName
  password :=
    if (columns.get? .password).isSome then some (cell columns cells .password) else none
  team := optionalCell kind columns cells .team
  group := optionalCell kind columns cells .group

/-- What the loop over the records does with one of them. -/
def readRecord (r : Reading) (record : Nat × List String) : Reading :=
  let line := record.1
  let cells := record.2
  let username := cell columns cells .username
  { rows := r.rows ++ [rowOf kind columns line cells]
    errors := r.errors ++ kind.fields.flatMap (fieldErrors kind columns line cells) ++
      passwordErrors line (cell columns cells .password) ++ usernameErrors line username r.seen
    seen := see line username r.seen }

/-- What is returned at the end. -/
def Reading.result (r : Reading) : List ImportRow × List String :=
  if r.rows = [] then ([], ["el archivo no tiene filas de datos"]) else (r.rows, r.errors)

end Rows

/-- `read_rows`: the rows and the errors. -/
def readRows (reader : CsvReader) (kind : ImportKind) (mapping : Mapping) (data : ByteArray) :
    List ImportRow × List String :=
  match parseFile reader data with
  | .error message => ([], [message])
  | .ok (header, records) =>
      let columns := Columns.ofHeader mapping kind header
      if columns.errors ≠ [] then ([], columns.errors)
      else (records.foldl (readRecord kind columns.columns) ⟨[], [], Dict.empty⟩).result

end Admin
end ContestManagement
