import Mathlib.Algebra.Order.Ring.Rat
import ContestManagement.Common.Crypto
import ContestManagement.Common.Datetime
import ContestManagement.Lib.Dict
import ContestManagement.Lib.Json

/-!
# Logins and the requests that follow them

`validate_login` checks a password, or the token of an admin who impersonates a contestant, and
returns a participation and a cookie.  The cookie holds the password on record, as it is stored, so
that `authenticate_request` does not need to hash a password.  It returns the participation and a
cookie with a new time.

Both apply the restrictions of the contest, each in its own order.  The JSON and the bcrypt library
are parameters.
-/

namespace ContestManagement
namespace Server
namespace Authentication

open Lib
open Common

/-! ## Addresses -/

/-- The bits of an address. -/
def maxBits (v6 : Bool) : Nat := if v6 then 128 else 32

structure Address where
  v6 : Bool
  value : Nat
  value_lt : value < 2 ^ maxBits v6
  deriving DecidableEq

/-- A network: the addresses that share its first bits. -/
structure Network where
  v6 : Bool
  value : Nat
  bits : Nat
  bits_le : bits ≤ maxBits v6
  deriving DecidableEq

/-- `address in network`. -/
def Network.has (network : Network) (address : Address) : Bool :=
  network.v6 = address.v6 &&
    network.value >>> (maxBits network.v6 - network.bits) =
      address.value >>> (maxBits network.v6 - network.bits)

/-- `ip_network((ip_address, ip_address.max_prefixlen))`. -/
def Address.network (address : Address) : Network :=
  ⟨address.v6, address.value, maxBits address.v6, Nat.le_refl _⟩

/-! ## Times -/

/-- A `datetime`. -/
structure Datetime where
  microseconds : ℤ
  isDatetime : IsDatetime microseconds
  deriving DecidableEq

/-- The seconds of the epoch. -/
def Datetime.seconds (timestamp : Datetime) : ℚ := timestamp.microseconds / 1000000

/-- The `datetime` of some seconds, rounded to microseconds, if there is one. -/
def Datetime.ofSeconds (seconds : ℚ) : Option Datetime :=
  let microseconds := Decimal.roundHalfEven (seconds * 1000000)
  if h : IsDatetime microseconds then some ⟨microseconds, h⟩ else none

/-- `make_datetime`; it raises at a value that is no time, and takes `None` for now. -/
def makeDatetime (now : Datetime) : Json → Option Datetime
  | .null => some now
  | .bool b => Datetime.ofSeconds (if b then 1 else 0)
  | .int i => Datetime.ofSeconds i
  | .float q => Datetime.ofSeconds q
  | _ => none

/-! ## The database and the configuration -/

structure Contest where
  allowPasswordAuthentication : Bool
  ipRestriction : Bool
  ipAutologin : Bool
  blockHiddenParticipations : Bool
  deriving DecidableEq

/-- A participation, with the username and the password of its user. -/
structure Participation where
  username : String
  userPassword : String
  password : Option String
  ip : Option (List Network)
  hidden : Bool
  deriving DecidableEq

/-- What a request finds: the configuration, and the contest with its participations. -/
structure Site where
  contestAdminToken : Option String
  /-- In seconds. -/
  cookieDuration : ℤ
  contest : Contest
  participations : List Participation
  distinct : (participations.map Participation.username).Nodup

/-- The participation of a username. -/
def Site.participation (site : Site) (username : String) : Option Participation :=
  site.participations.find? fun p => p.username = username

/-- `get_password`. -/
def getPassword (p : Participation) : String := p.password.getD p.userPassword

/-- A participation and a cookie. -/
abbrev LoginResult := Option Participation × Option String

section Login

variable {Salt : Type} (lib : JsonLibrary) (bcrypt : Bcrypt Salt) (site : Site)

/-- The cookie of a session. -/
def cookieOf (username password : String) (timestamp : Datetime) (impersonated : Json) : Json :=
  .list [.str username, .str password, .float timestamp.seconds, impersonated]

/-- `_PendingLogin`: plain values only, without the names for the log. -/
structure PendingLogin where
  participation : Participation
  ipAddress : Address
  timestamp : Datetime
  username : String
  correctPassword : String
  ipRestriction : Bool
  blockHiddenParticipations : Bool
  participationIp : Option (List Network)
  hidden : Bool

namespace PendingLogin

/-- `finish_invalid_password`. -/
def finishInvalidPassword (_ : PendingLogin) (_ : ValueError) : LoginResult := (none, none)

/-- The networks do not have the address. -/
def outside (networks : Option (List Network)) (address : Address) : Bool :=
  match networks with
  | none => false
  | some networks => !networks.any fun network => network.has address

/-- `finish`. -/
def finish (login : PendingLogin) (passwordValid : Bool) : LoginResult :=
  if !passwordValid then (none, none)
  else if login.ipRestriction && outside login.participationIp login.ipAddress then (none, none)
  else if login.blockHiddenParticipations && login.hidden then (none, none)
  else (some login.participation,
    some (lib.dumps (cookieOf login.username login.correctPassword login.timestamp (.bool false))))

end PendingLogin

/-- A login that is decided, or one that waits for its password to be checked. -/
inductive Begun
  | decided (result : LoginResult)
  | pending (login : PendingLogin)

/-- `_begin_login`. -/
def beginLogin (timestamp : Datetime) (username : String) (ipAddress : Address)
    (adminToken : String) : Begun :=
  if !site.contest.allowPasswordAuthentication && adminToken = "" then .decided (none, none)
  else
    match site.participation username with
    | none => .decided (none, none)
    | some participation =>
        if adminToken ≠ "" then
          match site.contestAdminToken with
          | none => .decided (none, none)
          | some token =>
              if adminToken ≠ token then .decided (none, none)
              else .decided (some participation,
                some (lib.dumps (cookieOf username "" timestamp (.bool true))))
        else .pending {
          participation
          ipAddress
          timestamp
          username
          correctPassword := getPassword participation
          ipRestriction := site.contest.ipRestriction
          blockHiddenParticipations := site.contest.blockHiddenParticipations
          participationIp := participation.ip
          hidden := participation.hidden }

/-- `validate_login`. -/
def validateLogin (timestamp : Datetime) (username password : String) (ipAddress : Address)
    (adminToken : String) : LoginResult :=
  match beginLogin lib site timestamp username ipAddress adminToken with
  | .decided result => result
  | .pending login =>
      match validatePassword bcrypt login.correctPassword password with
      | .error e => login.finishInvalidPassword e
      | .ok passwordValid => login.finish lib passwordValid

/-- What a coroutine does after the thread that checks the password. -/
def resumeLogin (login : PendingLogin) (checked : Except ValueError Bool) : LoginResult :=
  match checked with
  | .error e => login.finishInvalidPassword e
  | .ok passwordValid => login.finish lib passwordValid

/-- `validate_login_async`: a thread checks the password while the coroutine waits, and the database
may change in the meantime. -/
def validateLoginAsync (timestamp : Datetime) (username password : String) (ipAddress : Address)
    (adminToken : String) : LoginResult :=
  match beginLogin lib site timestamp username ipAddress adminToken with
  | .decided result => result
  | .pending login => resumeLogin lib login (validatePassword bcrypt login.correctPassword password)

end Login

/-! ## Requests -/

/-- A participation, a cookie, and whether an admin impersonates the contestant. -/
structure RequestResult where
  participation : Option Participation
  cookie : Option String
  impersonated : Bool
  deriving DecidableEq

/-- The result of a request that is not authenticated. -/
def RequestResult.refused : RequestResult := ⟨none, none, false⟩

/-- `bool(value)`. -/
def truthy : Json → Bool
  | .null => false
  | .bool b => b
  | .int i => i ≠ 0
  | .float q => q ≠ 0
  | .nonFinite => true
  | .str s => s ≠ ""
  | .list values => !values.isEmpty
  | .dict items => !items.isEmpty

/-- What a cookie says. -/
structure CookieData where
  username : Json
  password : Json
  lastUpdate : Datetime
  impersonated : Json

section Request

variable (lib : JsonLibrary) (site : Site) (now timestamp : Datetime)

/-- Parse a cookie; other values than lists of four raise, a text among them since its third
character is no time. -/
def parseCookie (cookie : String) : Option CookieData :=
  match lib.loads cookie with
  | .ok (.list (username :: password :: lastUpdate :: impersonated :: _)) =>
      (makeDatetime now lastUpdate).map fun lastUpdate =>
        ⟨username, password, lastUpdate, impersonated⟩
  | _ => none

/-- The participation of the name in a cookie; a name that is no text is nobody's. -/
def participationNamed : Json → Option Participation
  | .str username => site.participation username
  | _ => none

/-- The password in a cookie is the one on record. -/
def isPassword (password : Json) (correct : String) : Bool :=
  match password with
  | .str password => password = correct
  | _ => false

/-- `_authenticate_request_from_cookie_or_authorization_header`. -/
def authenticateFromCookie (cookie : Option String) : RequestResult :=
  match cookie.bind (parseCookie lib now) with
  | none => .refused
  | some data =>
      if !site.contest.allowPasswordAuthentication && !truthy data.impersonated then .refused
      else if site.cookieDuration < timestamp.seconds - data.lastUpdate.seconds then .refused
      else
        match participationNamed site data.username with
        | none => .refused
        | some participation =>
            let correctPassword :=
              if truthy data.impersonated then "" else getPassword participation
            if !truthy data.impersonated && !isPassword data.password correctPassword then .refused
            else ⟨some participation,
              some (lib.dumps (cookieOf participation.username correctPassword timestamp
                data.impersonated)), truthy data.impersonated⟩

/-- `AmbiguousIPAddress`. -/
structure AmbiguousIPAddress where

/-- `_authenticate_request_by_ip_address`. -/
def authenticateByIp (ipAddress : Address) : Except AmbiguousIPAddress (Option Participation) :=
  let found := site.participations.filter fun p =>
    (match p.ip with
      | some networks => networks.contains ipAddress.network
      | none => false) && !(site.contest.blockHiddenParticipations && p.hidden)
  match found with
  | [] => .ok none
  | [p] => .ok (some p)
  | _ => .error ⟨⟩

/-- The restrictions on the participation of a request. -/
def checkRestrictions (ipAddress : Address) (result : RequestResult) : RequestResult :=
  match result.participation with
  | none => .refused
  | some p =>
      if site.contest.ipRestriction && !result.impersonated &&
          PendingLogin.outside p.ip ipAddress then .refused
      else if site.contest.blockHiddenParticipations && p.hidden && !result.impersonated then
        .refused
      else result

/-- `authenticate_request`. -/
def authenticateRequest (cookie authorizationHeader : Option String) (ipAddress : Address) :
    RequestResult :=
  let fromCookie := authenticateFromCookie lib site now timestamp (authorizationHeader.or cookie)
  if site.contest.ipAutologin then
    match authenticateByIp site ipAddress with
    | .error _ => .refused
    | .ok (some p) => checkRestrictions site ipAddress ⟨some p, none, false⟩
    | .ok none => checkRestrictions site ipAddress fromCookie
  else checkRestrictions site ipAddress fromCookie

end Request

end Authentication
end Server
end ContestManagement
