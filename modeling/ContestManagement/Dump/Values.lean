import Mathlib.Algebra.Order.Round
import Mathlib.Tactic
import ContestManagement.Lib.Decimal

/-!
# The values of a dump

`encode_value` of `cmscontrib/DumpExporter.py` and `decode_value` of `cmscontrib/DumpImporter.py`,
and the check that `Base.set_attrs` makes of a value.  Floating point numbers are exact.
-/

namespace ContestManagement
namespace Dump

open Lib

/-- The networks of `ipaddress`: what `str` makes of one, and `ip_network` of a text. -/
structure Ipaddress where
  Network : Type
  str : Network → String
  ipNetwork : String → Option Network
  ipNetwork_str : ∀ network, ipNetwork (str network) = some network

/-- A Python object: a value of a column, or a part of a dump. -/
inductive PyObj (Doc Network : Type)
  | none
  | bool (b : Bool)
  | int (i : ℤ)
  | float (x : PyFloat)
  | str (s : String)
  /-- What a `JSONB` column holds. -/
  | doc (d : Doc)
  | list (items : List (PyObj Doc Network))
  | dict (items : List (String × PyObj Doc Network))
  /-- In microseconds since the epoch. -/
  | datetime (micros : ℤ)
  | timedelta (micros : ℤ)
  | network (n : Network)

inductive DumpError
  | typeError
  | valueError
  | attributeError
  | overflowError
  | keyError (key : String)
  | runtimeError (message : String)
  deriving DecidableEq

/-- The SQLAlchemy types, as `encode_value` and `set_attrs` tell them apart. -/
inductive ColumnType
  | boolean
  /-- `BigInteger` too. -/
  | integer
  | float
  /-- `String`, `Unicode`, `Enum`, `Codename`, `Filename`, `FilenameSchema` and `Digest`. -/
  | string
  | jsonb
  | dateTime
  | interval
  /-- `ARRAY` and `CastingArray`; `FilenameSchemaArray` is not an `ARRAY` but decorates one. -/
  | array (item : ColumnType) (isArray : Bool)
  | cidr
  /-- `INET`, `UUID` and `OID`. -/
  | other
  deriving DecidableEq

/-! ## Times -/

/-- The first and the last microsecond of a `datetime`. -/
def minDatetime : ℤ := -62135596800000000
def maxDatetime : ℤ := 253402300799999999

/-- The longest `timedelta`s. -/
def minTimedelta : ℤ := -86399999913600000000
def maxTimedelta : ℤ := 86399999999999999999

/-- `make_timestamp`, and `total_seconds`. -/
def totalSeconds (micros : ℤ) : PyFloat := .finite (micros / 10 ^ 6)

/-- The microseconds of a number of seconds. -/
def toMicros (seconds : ℚ) : ℤ := Decimal.roundHalfEven (seconds * 10 ^ 6)

/-- `make_datetime`. -/
def makeDatetime (seconds : ℚ) : Except DumpError ℤ :=
  -- `utcfromtimestamp` cannot convert to a `time_t`.
  if 2 ^ 63 ≤ |seconds| then .error .overflowError
  else if minDatetime ≤ toMicros seconds ∧ toMicros seconds ≤ maxDatetime then .ok (toMicros seconds)
  else .error .valueError

/-- `timedelta(seconds=...)`. -/
def makeTimedelta (seconds : ℚ) : Except DumpError ℤ :=
  if minTimedelta ≤ toMicros seconds ∧ toMicros seconds ≤ maxTimedelta then .ok (toMicros seconds)
  else .error .overflowError

theorem toMicros_div (micros : ℤ) : toMicros (micros / 10 ^ 6) = micros := by
  have hcancel : (micros : ℚ) / 10 ^ 6 * 10 ^ 6 = micros := by
    field_simp
  unfold toMicros Decimal.roundHalfEven
  rw [hcancel]
  simp

variable {Doc : Type} (ip : Ipaddress)

/-! ## Encoding and decoding -/

/-- A number of seconds, as `utcfromtimestamp` and `timedelta` take it. -/
def secondsOf {Network : Type} : PyObj Doc Network → Except DumpError ℚ
  | .float (.finite q) => .ok q
  | .float (.infinite _) => .error .overflowError
  | .float .nan => .error .valueError
  | .int i => .ok i
  | .bool b => .ok (if b then 1 else 0)
  | _ => .error .typeError

/-- `encode_value`. -/
def encodeValue : ColumnType → PyObj Doc ip.Network → Except DumpError (PyObj Doc ip.Network)
  | _, .none => .ok .none
  | .boolean, value | .integer, value | .float, value | .string, value | .jsonb, value => .ok value
  | .dateTime, .datetime micros => .ok (.float (totalSeconds micros))
  | .dateTime, _ => .error .typeError
  | .interval, .timedelta micros => .ok (.float (totalSeconds micros))
  | .interval, _ => .error .attributeError
  | .array item _, .list items => (items.mapM (encodeValue item)).map .list
  | .array _ _, _ => .error .typeError
  | .cidr, .network n => .ok (.str (ip.str n))
  | .cidr, _ => .error .typeError
  | .other, _ => .error (.runtimeError "Unknown SQLAlchemy column type")

/-- 2030-01-01. -/
def farFuture : ℤ := 1893456000000000

/-- `decode_value`. -/
def decodeValue : ColumnType → PyObj Doc ip.Network → Except DumpError (PyObj Doc ip.Network)
  | _, .none => .ok .none
  | .boolean, value | .integer, value | .float, value | .string, value | .jsonb, value => .ok value
  | .dateTime, value =>
      match (secondsOf value).bind makeDatetime with
      | .ok micros => .ok (.datetime micros)
      | .error .overflowError => .ok (.datetime farFuture)
      | .error error => .error error
  | .interval, value => ((secondsOf value).bind makeTimedelta).map .timedelta
  | .array item _, .list items => (items.mapM (decodeValue item)).map .list
  | .array _ _, _ => .error .typeError
  | .cidr, .str text =>
      match ip.ipNetwork text with
      | some n => .ok (.network n)
      | none => .error .valueError
  | .cidr, _ => .error .typeError
  | .other, _ => .error (.runtimeError "Unknown SQLAlchemy column type")

/-! ## Typed values -/

variable {ip}

/-- `isinstance(value, _TYPE_MAP[type_])`. -/
def ColumnType.isInstance : ColumnType → PyObj Doc ip.Network → Bool
  | .boolean, .bool _ => true
  -- A `bool` is an `int`.
  | .integer, .int _ | .integer, .bool _ => true
  | .float, .float _ => true
  | .string, .str _ => true
  -- Everything is an `object`.
  | .jsonb, _ => true
  | .dateTime, .datetime _ => true
  | .interval, .timedelta _ => true
  | .array _ _, .list _ => true
  | .cidr, .network _ => true
  | _, _ => false

/-- A value that a column of the type can hold. -/
def ColumnType.Holds : ColumnType → PyObj Doc ip.Network → Prop
  | _, .none => True
  | .boolean, .bool _ => True
  | .integer, .int _ | .integer, .bool _ => True
  | .float, .float _ => True
  | .string, .str _ => True
  | .jsonb, .doc _ => True
  | .dateTime, .datetime micros => minDatetime ≤ micros ∧ micros ≤ maxDatetime
  | .interval, .timedelta micros => minTimedelta ≤ micros ∧ micros ≤ maxTimedelta
  | .array item _, .list items => ∀ value ∈ items, item.Holds value
  | .cidr, .network _ => True
  | _, _ => False

/-- A column property: its key, its type, whether it is nullable, and its default. -/
structure ColProp (Doc : Type) (ip : Ipaddress) where
  key : String
  type : ColumnType
  nullable : Bool
  default : Option (PyObj Doc ip.Network)

/-- The check of `set_attrs`: nulls only if the column is nullable, and instances of the type of the
column; in an `ARRAY`, of the type of its items. -/
def ColProp.accepts (prp : ColProp Doc ip) : PyObj Doc ip.Network → Bool
  | .none => prp.nullable
  | value =>
      prp.type.isInstance value &&
        match prp.type, value with
        | .array item true, .list items => items.all item.isInstance
        | _, _ => true

/-! ## What is encoded is decoded -/

theorem mapM_ok {α β ε : Type} {f : α → Except ε β} {items : List α} {g : α → β}
    (h : ∀ item ∈ items, f item = .ok (g item)) : items.mapM f = .ok (items.map g) := by
  induction items with
  | nil => rfl
  | cons item rest ih =>
      rw [List.mapM_cons, h item (by simp), ih fun other hother => h other (by simp [hother])]
      rfl

theorem makeDatetime_div {micros : ℤ} (hmin : minDatetime ≤ micros) (hmax : micros ≤ maxDatetime) :
    makeDatetime (micros / 10 ^ 6) = .ok micros := by
  have hsmall : ¬ (2 : ℚ) ^ 63 ≤ |(micros : ℚ) / 10 ^ 6| := by
    have hlow : (minDatetime : ℚ) ≤ micros := by exact_mod_cast hmin
    have hhigh : (micros : ℚ) ≤ maxDatetime := by exact_mod_cast hmax
    rw [not_le, abs_lt]
    unfold minDatetime at hlow
    unfold maxDatetime at hhigh
    push_cast at hlow hhigh
    constructor
    · rw [lt_div_iff₀ (by norm_num)]
      linarith
    · rw [div_lt_iff₀ (by norm_num)]
      linarith
  unfold makeDatetime
  rw [if_neg hsmall, toMicros_div, if_pos ⟨hmin, hmax⟩]

/-- Every type decodes what it encodes. -/
theorem decodeValue_encodeValue (type : ColumnType) {value : PyObj Doc ip.Network}
    (h : type.Holds value) :
    ∃ encoded, encodeValue ip type value = .ok encoded ∧ decodeValue ip type encoded = .ok value := by
  induction type generalizing value with
  | boolean | integer | float | string | jsonb =>
      cases value with
      | none => exact ⟨.none, rfl, rfl⟩
      | _ => exact ⟨_, rfl, rfl⟩
  | dateTime =>
      cases value with
      | none => exact ⟨.none, rfl, rfl⟩
      | datetime micros =>
          refine ⟨_, rfl, ?_⟩
          have hseconds : (secondsOf (.float (totalSeconds micros) : PyObj Doc ip.Network)).bind
              makeDatetime = .ok micros := makeDatetime_div h.1 h.2
          rw [decodeValue, hseconds]
          exact fun heq => by cases heq
      | _ => exact absurd h id
  | interval =>
      cases value with
      | none => exact ⟨.none, rfl, rfl⟩
      | timedelta micros =>
          refine ⟨_, rfl, ?_⟩
          have hseconds : (secondsOf (.float (totalSeconds micros) : PyObj Doc ip.Network)).bind
              makeTimedelta = .ok micros := by
            change makeTimedelta _ = _
            rw [makeTimedelta, toMicros_div]
            exact if_pos h
          rw [decodeValue, hseconds]
          · rfl
          · exact fun heq => by cases heq
      | _ => exact absurd h id
  | array item isArray ih =>
      cases value with
      | none => exact ⟨.none, rfl, rfl⟩
      | list items =>
          have hitems : ∀ value ∈ items, item.Holds value := h
          choose! encoded hencode hdecode using fun value hvalue => ih (hitems value hvalue)
          refine ⟨.list (items.map encoded), ?_, ?_⟩
          · rw [encodeValue, mapM_ok hencode]
            rfl
          · have hback : ∀ value ∈ items, (decodeValue ip item ∘ encoded) value = .ok (id value) :=
              hdecode
            rw [decodeValue, List.mapM_map, mapM_ok hback, List.map_id]
            rfl
      | _ => exact absurd h id
  | cidr =>
      cases value with
      | none => exact ⟨.none, rfl, rfl⟩
      | network n =>
          refine ⟨_, rfl, ?_⟩
          rw [decodeValue, ip.ipNetwork_str]
      | _ => exact absurd h id
  | other =>
      cases value with
      | none => exact ⟨.none, rfl, rfl⟩
      | _ => exact absurd h id

end Dump
end ContestManagement
