import ContestManagement.Lib.Python

/-!
# Authentication strings

A stored password is a method and a payload with a colon between them, as `cmscommon/crypto.py`
writes and reads them.  The library that computes bcrypt hashes is a parameter.
-/

namespace ContestManagement
namespace Common

/-- The bcrypt library: a hash has its salt in it. -/
structure Bcrypt (Salt : Type) where
  hashpw : Salt → String → String
  /-- `checkpw`, or false where it raises a `ValueError` at a payload that is no hash. -/
  checkpw : String → String → Bool

/-- `ValueError`, with its message. -/
structure ValueError where
  message : String
  deriving DecidableEq

variable {Salt : Type} (bcrypt : Bcrypt Salt)

/-- `parse_authentication`. -/
def parseAuthentication (authentication : String) : Except ValueError (String × String) :=
  let characters := authentication.toList
  if ':' ∈ characters then
    .ok (String.ofList (characters.takeWhile (· ≠ ':')),
      String.ofList ((characters.dropWhile (· ≠ ':')).drop 1))
  else .error ⟨"Authentication string not parsable."⟩

/-- `validate_password`. -/
def validatePassword (authentication password : String) : Except ValueError Bool := do
  let (method, payload) ← parseAuthentication authentication
  if method = "bcrypt" then .ok (bcrypt.checkpw payload password)
  else if method = "plaintext" then .ok (payload = password)
  else .error ⟨"Authentication method not known."⟩

/-- `build_password`. -/
def buildPassword (password method : String) : String := method ++ ":" ++ password

/-- `hash_password`, with bcrypt. -/
def hashPassword (salt : Salt) (password : String) : String :=
  buildPassword (bcrypt.hashpw salt password) "bcrypt"

variable {bcrypt}

theorem parseAuthentication_buildPassword {password method : String} (h : ':' ∉ method.toList) :
    parseAuthentication (buildPassword password method) = .ok (method, password) := by
  have hcharacters : (buildPassword password method).toList =
      method.toList ++ ':' :: password.toList := by
    unfold buildPassword
    rw [String.toList_append, String.toList_append, List.append_assoc]
    rfl
  have hbefore : ∀ c ∈ method.toList, (c ≠ ':' : Bool) = true := by
    intro c hc
    simpa using fun heq : c = ':' => h (heq ▸ hc)
  unfold parseAuthentication
  rw [hcharacters]
  dsimp only
  rw [if_pos (by simp), List.takeWhile_append_of_pos hbefore, List.dropWhile_append_of_pos hbefore]
  simp

theorem validatePassword_hashPassword (salt : Salt) (hashed password : String) :
    validatePassword bcrypt (hashPassword bcrypt salt hashed) password =
      .ok (bcrypt.checkpw (bcrypt.hashpw salt hashed) password) := by
  unfold validatePassword hashPassword
  rw [parseAuthentication_buildPassword (by decide)]
  rfl

end Common
end ContestManagement
