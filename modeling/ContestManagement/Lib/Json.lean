import Mathlib.Data.Rat.Defs

/-!
# JSON texts

The values that a JSON library reads and writes.  Python's library also reads the numbers `NaN`,
`Infinity` and `-Infinity`, which are floats that are not finite.
-/

namespace ContestManagement
namespace Lib

inductive Json where
  | null
  | bool (b : Bool)
  | int (i : ℤ)
  | float (q : ℚ)
  /-- A float that is not finite. -/
  | nonFinite
  | str (s : String)
  | list (values : List Json)
  | dict (items : List (String × Json))

/-- What reading a text raises. -/
inductive JsonError where
  | valueError (message : String)
  /-- The text is nested too deep. -/
  | recursionError (message : String)
  | other (message : String)

/-- A JSON library. -/
structure JsonLibrary where
  dumps : Json → String
  loads : String → Except JsonError Json

namespace JsonLibrary

/-- The library reads back a value that it writes. -/
def ReadsBack (lib : JsonLibrary) (value : Json) : Prop :=
  lib.loads (lib.dumps value) = .ok value

/-- A text that cannot be read raises a `ValueError` or a `RecursionError`. -/
def Documented (lib : JsonLibrary) : Prop :=
  ∀ text message, lib.loads text ≠ .error (.other message)

end JsonLibrary

end Lib
end ContestManagement
