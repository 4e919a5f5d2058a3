import Mathlib.Data.Rat.Encodable
import Mathlib.Logic.Equiv.List
import ContestManagement.Server.Authentication

/-!
# The session that a login opens

A session is a login and a chain of requests, each with the cookie that the one before it returned.
Every cookie of a session says what the cookie of the login says, with a later time: the username,
the password on record at the login, and whether an admin impersonates the contestant.
-/

namespace ContestManagement
namespace Server
namespace Authentication

open Lib
open Common

/-! ## The parts of a request -/

theorem Datetime.ofSeconds_seconds (timestamp : Datetime) :
    Datetime.ofSeconds timestamp.seconds = some timestamp := by
  have hround : Decimal.roundHalfEven (timestamp.seconds * 1000000) = timestamp.microseconds := by
    rw [Datetime.seconds, div_mul_cancel₀ _ (by norm_num)]
    exact Decimal.roundHalfEven_intCast _
  unfold Datetime.ofSeconds
  simp only [hround, dif_pos timestamp.isDatetime]

theorem Site.username_of_participation {site : Site} {username : String} {p : Participation}
    (h : site.participation username = some p) : p.username = username := by
  simpa using List.find?_some h

/-- The participation is forbidden to make requests from an address, by its networks or because it
is hidden. -/
def Site.Forbids (site : Site) (ipAddress : Address) (p : Participation) : Prop :=
  (site.contest.ipRestriction = true ∧
    ∃ networks, p.ip = some networks ∧ ∀ network ∈ networks, network.has ipAddress = false) ∨
  (site.contest.blockHiddenParticipations = true ∧ p.hidden = true)

theorem PendingLogin.outside_iff {networks : Option (List Network)} {address : Address} :
    PendingLogin.outside networks address = true ↔
      ∃ found, networks = some found ∧ ∀ network ∈ found, network.has address = false := by
  cases networks with
  | none => simp [PendingLogin.outside]
  | some found => simp [PendingLogin.outside]

/-- What is left of a result after the restrictions. -/
theorem checkRestrictions_eq (site : Site) (ipAddress : Address) (p : Participation)
    (cookie : Option String) (impersonated : Bool) :
    (impersonated = false ∧ site.Forbids ipAddress p ∧
      checkRestrictions site ipAddress ⟨some p, cookie, impersonated⟩ = .refused) ∨
    ((impersonated = true ∨ ¬site.Forbids ipAddress p) ∧
      checkRestrictions site ipAddress ⟨some p, cookie, impersonated⟩ =
        ⟨some p, cookie, impersonated⟩) := by
  unfold Site.Forbids
  rw [← PendingLogin.outside_iff]
  simp only [checkRestrictions]
  -- An impersonated request skips both checks.
  cases impersonated with
  | true => simp
  | false =>
      cases site.contest.ipRestriction <;> cases PendingLogin.outside p.ip ipAddress <;>
        cases site.contest.blockHiddenParticipations <;> cases p.hidden <;> simp

section

variable (lib : JsonLibrary)

/-- The library reads back the cookies that it writes. -/
def ReadsBackCookies : Prop :=
  ∀ username password timestamp impersonated,
    lib.ReadsBack (cookieOf username password timestamp (.bool impersonated))

/-- The password in a cookie. -/
def cookiePassword (p : Participation) (impersonated : Bool) : String :=
  if impersonated then "" else getPassword p

variable {lib}

/-- What a request does with the cookie of a login or of a request before it. -/
theorem authenticateFromCookie_cookieOf (hlib : ReadsBackCookies lib) (site : Site)
    (now timestamp : Datetime) (username password : String) (last : Datetime)
    (impersonated : Bool) :
    authenticateFromCookie lib site now timestamp
        (some (lib.dumps (cookieOf username password last (.bool impersonated)))) =
      if site.contest.allowPasswordAuthentication = false ∧ impersonated = false then .refused
      else if site.cookieDuration < timestamp.seconds - last.seconds then .refused
      else
        match site.participation username with
        | none => .refused
        | some p =>
            if impersonated = false ∧ password ≠ getPassword p then .refused
            else ⟨some p, some (lib.dumps (cookieOf username (cookiePassword p impersonated)
              timestamp (.bool impersonated))), impersonated⟩ := by
  have hparse : parseCookie lib now
      (lib.dumps (cookieOf username password last (.bool impersonated))) =
        some ⟨.str username, .str password, last, .bool impersonated⟩ := by
    unfold parseCookie
    rw [hlib username password last impersonated]
    simp [cookieOf, makeDatetime, Datetime.ofSeconds_seconds]
  simp only [authenticateFromCookie, Option.bind_some, hparse, participationNamed, truthy,
    isPassword]
  cases hp : site.participation username with
  | none => cases impersonated <;> simp
  | some p =>
      dsimp only
      rw [Site.username_of_participation hp]
      cases impersonated <;> simp [cookiePassword]

/-- Without autologin a request is authenticated by its cookie alone. -/
theorem authenticateRequest_of_cookie {site : Site} (hauto : site.contest.ipAutologin = false)
    (now timestamp : Datetime) {cookie authorizationHeader : Option String} {sent : String}
    (hsent : authorizationHeader.or cookie = some sent) (ipAddress : Address) :
    authenticateRequest lib site now timestamp cookie authorizationHeader ipAddress =
      checkRestrictions site ipAddress
        (authenticateFromCookie lib site now timestamp (some sent)) := by
  simp [authenticateRequest, hauto, hsent]

/-- A request gets a cookie only from the cookie that it sends. -/
theorem fromCookie_of_cookie {site : Site} {now timestamp : Datetime}
    {cookie authorizationHeader : Option String} {ipAddress : Address} {returned : String}
    (h : (authenticateRequest lib site now timestamp cookie authorizationHeader ipAddress).cookie =
      some returned) :
    (authenticateFromCookie lib site now timestamp (authorizationHeader.or cookie)).cookie =
      some returned := by
  have hchecked : ∀ result, (checkRestrictions site ipAddress result).cookie = some returned →
      result.cookie = some returned := by
    intro result hresult
    obtain ⟨participation, cookie', impersonated⟩ := result
    cases participation with
    | none => cases hresult
    | some p =>
        rcases checkRestrictions_eq site ipAddress p cookie' impersonated with
          ⟨-, -, heq⟩ | ⟨-, heq⟩
        · rw [heq] at hresult
          cases hresult
        · rwa [heq] at hresult
  unfold authenticateRequest at h
  dsimp only at h
  split at h
  · split at h
    · cases h
    -- A login by the address clears the cookie.
    · cases hchecked _ h
    · exact hchecked _ h
  · exact hchecked _ h

/-- A request is refused, or it has a participation that is not forbidden there. -/
theorem authenticateRequest_allowed (site : Site) (now timestamp : Datetime)
    (cookie authorizationHeader : Option String) (ipAddress : Address) :
    authenticateRequest lib site now timestamp cookie authorizationHeader ipAddress = .refused ∨
      ∃ p, (authenticateRequest lib site now timestamp cookie authorizationHeader
          ipAddress).participation = some p ∧
        ((authenticateRequest lib site now timestamp cookie authorizationHeader
          ipAddress).impersonated = true ∨ ¬site.Forbids ipAddress p) := by
  have hchecked : ∀ result, checkRestrictions site ipAddress result = .refused ∨
      ∃ p, (checkRestrictions site ipAddress result).participation = some p ∧
        ((checkRestrictions site ipAddress result).impersonated = true ∨
          ¬site.Forbids ipAddress p) := by
    intro result
    obtain ⟨participation, cookie', impersonated⟩ := result
    cases participation with
    | none => exact .inl rfl
    | some p =>
        rcases checkRestrictions_eq site ipAddress p cookie' impersonated with
          ⟨-, -, heq⟩ | ⟨hallowed, heq⟩
        · exact .inl heq
        · rw [heq]
          exact .inr ⟨p, rfl, hallowed⟩
  unfold authenticateRequest
  dsimp only
  split
  · split
    · exact .inl rfl
    · exact hchecked _
    · exact hchecked _
  · exact hchecked _

/-! ## Logins -/

/-- A login that is decided with a participation is an impersonation. -/
theorem beginLogin_decided {site : Site} {timestamp : Datetime} {username : String}
    {ipAddress : Address} {adminToken : String} {p : Participation} {cookie : String}
    (h : beginLogin lib site timestamp username ipAddress adminToken =
      .decided (some p, some cookie)) :
    adminToken ≠ "" ∧ site.participation username = some p ∧
      cookie = lib.dumps (cookieOf username "" timestamp (.bool true)) := by
  unfold beginLogin at h
  split at h
  · cases h
  split at h
  · cases h
  next q hq =>
    split at h
    next htoken =>
      split at h
      · cases h
      · split at h
        · cases h
        · cases h
          exact ⟨htoken, hq, rfl⟩
    · cases h

/-- A login that waits for its password has read what the restrictions need. -/
theorem beginLogin_pending {site : Site} {timestamp : Datetime} {username : String}
    {ipAddress : Address} {adminToken : String} {login : PendingLogin}
    (h : beginLogin lib site timestamp username ipAddress adminToken = .pending login) :
    adminToken = "" ∧ site.contest.allowPasswordAuthentication = true ∧
      ∃ p, site.participation username = some p ∧
        login = {
          participation := p
          ipAddress
          timestamp
          username
          correctPassword := getPassword p
          ipRestriction := site.contest.ipRestriction
          blockHiddenParticipations := site.contest.blockHiddenParticipations
          participationIp := p.ip
          hidden := p.hidden } := by
  unfold beginLogin at h
  split at h
  · cases h
  next hallowed =>
    split at h
    · cases h
    next p hp =>
      split at h
      · split at h
        · cases h
        · split at h <;> cases h
      next htoken =>
        cases h
        have hempty : adminToken = "" := not_not.mp htoken
        exact ⟨hempty, by simpa [hempty] using hallowed, p, hp, rfl⟩

/-- A login with the right password has passed both restrictions. -/
theorem finish_eq_some {login : PendingLogin} {passwordValid : Bool} {p : Participation}
    {cookie : String} (h : login.finish lib passwordValid = (some p, some cookie)) :
    login.participation = p ∧
      cookie = lib.dumps (cookieOf login.username login.correctPassword login.timestamp
        (.bool false)) ∧
      (login.ipRestriction && PendingLogin.outside login.participationIp login.ipAddress) = false ∧
      (login.blockHiddenParticipations && login.hidden) = false := by
  unfold PendingLogin.finish at h
  split at h
  · cases h
  split at h
  · cases h
  next hinside =>
    split at h
    · cases h
    next hshown =>
      cases h
      exact ⟨rfl, rfl, by simpa using hinside, by simpa using hshown⟩

/-- What a login that succeeds has checked, and its cookie. -/
theorem validateLogin_eq_some {Salt : Type} {bcrypt : Bcrypt Salt} {site : Site}
    {timestamp : Datetime} {username password : String} {ipAddress : Address} {adminToken : String}
    {p : Participation} {cookie : String}
    (h : validateLogin lib bcrypt site timestamp username password ipAddress adminToken =
      (some p, some cookie)) :
    site.participation username = some p ∧
      cookie = lib.dumps (cookieOf username (cookiePassword p (adminToken ≠ "")) timestamp
        (.bool (adminToken ≠ ""))) ∧
      (adminToken = "" → site.contest.allowPasswordAuthentication = true ∧
        ¬site.Forbids ipAddress p) := by
  unfold validateLogin at h
  cases hbegun : beginLogin lib site timestamp username ipAddress adminToken with
  | decided result =>
      rw [hbegun] at h
      dsimp only at h
      subst h
      obtain ⟨htoken, hp, hcookie⟩ := beginLogin_decided hbegun
      refine ⟨hp, ?_, fun hempty => absurd hempty htoken⟩
      simp [hcookie, cookiePassword, htoken]
  | pending login =>
      rw [hbegun] at h
      dsimp only at h
      obtain ⟨hempty, hallowed, q, hq, rfl⟩ := beginLogin_pending hbegun
      cases hchecked : validatePassword bcrypt (getPassword q) password with
      | error e =>
          rw [hchecked] at h
          cases h
      | ok passwordValid =>
          rw [hchecked] at h
          obtain ⟨rfl, hcookie, hinside, hshown⟩ := finish_eq_some h
          refine ⟨hq, ?_, fun _ => ⟨hallowed, ?_⟩⟩
          · simp [hcookie, cookiePassword, hempty]
          · unfold Site.Forbids
            rw [← PendingLogin.outside_iff]
            intro hforbids
            cases hforbids with
            | inl h => exact Bool.false_ne_true (hinside.symm.trans (Bool.and_eq_true_iff.mpr h))
            | inr h => exact Bool.false_ne_true (hshown.symm.trans (Bool.and_eq_true_iff.mpr h))

/-! ## Sessions -/

variable (lib)

/-- The cookies of a session, with their times: first the cookie of the login, then each that a
request got for the one before it, at a site where the session allows requests. -/
inductive Session (allowed : Site → Prop) (ipAddress : Address) (cookie : String)
    (timestamp : Datetime) : String → Datetime → Prop
  | login : Session allowed ipAddress cookie timestamp cookie timestamp
  | request {site : Site} {now last next : Datetime} {sent returned : String}
      {fromBrowser fromHeader : Option String} :
      Session allowed ipAddress cookie timestamp sent last → allowed site →
      fromHeader.or fromBrowser = some sent →
      next.seconds - last.seconds ≤ site.cookieDuration →
      (authenticateRequest lib site now next fromBrowser fromHeader ipAddress).cookie =
        some returned →
      Session allowed ipAddress cookie timestamp returned next

variable {lib}

/-- A cookie is that of a request on behalf of a username. -/
theorem returned_eq (hlib : ReadsBackCookies lib) {site : Site} {now last next : Datetime}
    {username password sent returned : String} {impersonated : Bool}
    {fromBrowser fromHeader : Option String} {ipAddress : Address}
    (hsent : fromHeader.or fromBrowser = some sent)
    (hcookie : sent = lib.dumps (cookieOf username password last (.bool impersonated)))
    (hpassword : impersonated = true → password = "")
    (h : (authenticateRequest lib site now next fromBrowser fromHeader ipAddress).cookie =
      some returned) :
    returned = lib.dumps (cookieOf username password next (.bool impersonated)) := by
  have hfrom := fromCookie_of_cookie h
  rw [hsent, hcookie, authenticateFromCookie_cookieOf hlib] at hfrom
  split at hfrom
  · cases hfrom
  split at hfrom
  · cases hfrom
  split at hfrom
  · cases hfrom
  next p hp =>
    split at hfrom
    · cases hfrom
    next hsame =>
      cases hfrom
      cases impersonated with
      | true => rw [hpassword rfl]; rfl
      | false =>
          have hrecord : password = getPassword p := by simpa using hsame
          rw [hrecord]
          rfl

/-- Every cookie of a session says what the cookie of the login says. -/
theorem Session.cookie_eq (hlib : ReadsBackCookies lib) {allowed : Site → Prop}
    {ipAddress : Address} {cookie sent username password : String} {timestamp last : Datetime}
    {impersonated : Bool} (h : Session lib allowed ipAddress cookie timestamp sent last)
    (hcookie : cookie = lib.dumps (cookieOf username password timestamp (.bool impersonated)))
    (hpassword : impersonated = true → password = "") :
    sent = lib.dumps (cookieOf username password last (.bool impersonated)) := by
  induction h with
  | login => exact hcookie
  | request _ _ hsent _ hreturned ih => exact returned_eq hlib hsent ih hpassword hreturned

/-- A request that the login would allow at its time continues the session. -/
theorem authenticateRequest_eq_some (hlib : ReadsBackCookies lib) {site : Site}
    (hauto : site.contest.ipAutologin = false) {p : Participation} {username : String}
    (hp : site.participation username = some p) {impersonated : Bool} {ipAddress : Address}
    (hallowed : impersonated = false →
      site.contest.allowPasswordAuthentication = true ∧ ¬site.Forbids ipAddress p)
    (now : Datetime) {last next : Datetime}
    (htime : next.seconds - last.seconds ≤ site.cookieDuration)
    {fromBrowser fromHeader : Option String}
    (hsent : fromHeader.or fromBrowser = some (lib.dumps (cookieOf username
      (cookiePassword p impersonated) last (.bool impersonated)))) :
    authenticateRequest lib site now next fromBrowser fromHeader ipAddress =
      ⟨some p, some (lib.dumps (cookieOf username (cookiePassword p impersonated) next
        (.bool impersonated))), impersonated⟩ := by
  have hopen : ¬(site.contest.allowPasswordAuthentication = false ∧ impersonated = false) := by
    rintro ⟨hclosed, himpersonated⟩
    rw [(hallowed himpersonated).1] at hclosed
    cases hclosed
  have hrecord : ¬(impersonated = false ∧ cookiePassword p impersonated ≠ getPassword p) := by
    rintro ⟨rfl, hdiffers⟩
    exact hdiffers rfl
  rw [authenticateRequest_of_cookie hauto now next hsent, authenticateFromCookie_cookieOf hlib,
    if_neg hopen, if_neg (not_lt.mpr htime), hp]
  dsimp only
  rw [if_neg hrecord]
  rcases checkRestrictions_eq site ipAddress p _ impersonated with
    ⟨himpersonated, hforbids, -⟩ | ⟨-, heq⟩
  · exact absurd hforbids (hallowed himpersonated).2
  · exact heq

/-- A request with a password that is not the one on record is refused. -/
theorem authenticateRequest_of_password (hlib : ReadsBackCookies lib) {site : Site}
    (hauto : site.contest.ipAutologin = false) {username password : String}
    (hrecord : (site.participation username).map getPassword ≠ some password)
    {now last next : Datetime} {fromBrowser fromHeader : Option String} {ipAddress : Address}
    (hsent : fromHeader.or fromBrowser =
      some (lib.dumps (cookieOf username password last (.bool false)))) :
    authenticateRequest lib site now next fromBrowser fromHeader ipAddress = .refused := by
  rw [authenticateRequest_of_cookie hauto now next hsent, authenticateFromCookie_cookieOf hlib]
  split
  · rfl
  split
  · rfl
  cases hp : site.participation username with
  | none => rfl
  | some p =>
      have hdiffers : password ≠ getPassword p := by
        intro hsame
        rw [hp, hsame] at hrecord
        exact hrecord rfl
      dsimp only
      rw [if_pos ⟨rfl, hdiffers⟩]
      rfl

/-- A request for a participation that is forbidden there is refused. -/
theorem authenticateRequest_of_forbids (hlib : ReadsBackCookies lib) {site : Site}
    (hauto : site.contest.ipAutologin = false) {p : Participation} {username password : String}
    (hp : site.participation username = some p) {ipAddress : Address}
    (hforbids : site.Forbids ipAddress p) {now last next : Datetime}
    {fromBrowser fromHeader : Option String}
    (hsent : fromHeader.or fromBrowser =
      some (lib.dumps (cookieOf username password last (.bool false)))) :
    authenticateRequest lib site now next fromBrowser fromHeader ipAddress = .refused := by
  rw [authenticateRequest_of_cookie hauto now next hsent, authenticateFromCookie_cookieOf hlib]
  split
  · rfl
  split
  · rfl
  rw [hp]
  dsimp only
  split
  · rfl
  rcases checkRestrictions_eq site ipAddress p _ false with ⟨-, -, heq⟩ | ⟨hallowed, -⟩
  · exact heq
  · cases hallowed with
    | inl h => cases h
    | inr h => exact absurd hforbids h

/-- A site where nothing has changed for a contestant since a login. -/
def Site.SameFor (site : Site) (username : String) (later : Site) : Prop :=
  later.contest = site.contest ∧ later.participation username = site.participation username

/-- A login and its session agree.  While the contest and the participation stay as they are, every
request of the session returns the participation of the login and a cookie that continues the
session.  A request with a cookie of the session of a login that is no impersonation is refused once
the password on record is another one, the participation is gone, or it is forbidden at the request.
Every request is refused, or it has a participation that is not forbidden or that an admin
impersonates.  The coroutine gives the same result as the function. -/
theorem session_agrees_with_login {Salt : Type} (bcrypt : Bcrypt Salt) (hlib : ReadsBackCookies lib)
    (site : Site) (timestamp : Datetime) (username password : String) (ipAddress : Address)
    (adminToken : String) :
    (∀ p cookie, validateLogin lib bcrypt site timestamp username password ipAddress adminToken =
        (some p, some cookie) →
      (site.contest.ipAutologin = false → ∀ sent last,
        Session lib (site.SameFor username) ipAddress cookie timestamp sent last →
          ∀ (later : Site) (now next : Datetime) (fromBrowser fromHeader : Option String),
            site.SameFor username later → fromHeader.or fromBrowser = some sent →
            next.seconds - last.seconds ≤ later.cookieDuration →
            ∃ returned, authenticateRequest lib later now next fromBrowser fromHeader ipAddress =
                ⟨some p, some returned, adminToken ≠ ""⟩ ∧
              Session lib (site.SameFor username) ipAddress cookie timestamp returned next) ∧
      (adminToken = "" → ∀ sent last,
        Session lib (fun _ => True) ipAddress cookie timestamp sent last →
          ∀ (later : Site) (now next : Datetime) (fromBrowser fromHeader : Option String)
            (ipAddress' : Address), later.contest.ipAutologin = false →
            fromHeader.or fromBrowser = some sent →
            ((later.participation username).map getPassword ≠ some (getPassword p) ∨
              ∃ q, later.participation username = some q ∧ later.Forbids ipAddress' q) →
            authenticateRequest lib later now next fromBrowser fromHeader ipAddress' =
              .refused)) ∧
      (∀ (later : Site) (now next : Datetime) (fromBrowser fromHeader : Option String)
        (ipAddress' : Address),
        let result := authenticateRequest lib later now next fromBrowser fromHeader ipAddress'
        result = .refused ∨ ∃ p, result.participation = some p ∧
          (result.impersonated = true ∨ ¬later.Forbids ipAddress' p)) ∧
      validateLoginAsync lib bcrypt site timestamp username password ipAddress adminToken =
        validateLogin lib bcrypt site timestamp username password ipAddress adminToken := by
  refine ⟨fun p cookie hlogin => ?_, ?_, rfl⟩
  · obtain ⟨hp, hcookie, hchecked⟩ := validateLogin_eq_some hlogin
    have hpassword : decide (adminToken ≠ "") = true →
        cookiePassword p (adminToken ≠ "") = "" := by
      intro htoken
      rw [htoken]
      rfl
    refine ⟨fun hauto sent last hsession later now next fromBrowser fromHeader hsame hsent htime => ?_,
      fun hempty sent last hsession later now next fromBrowser fromHeader ipAddress' hauto hsent
        hreason => ?_⟩
    · have heq := hsession.cookie_eq hlib hcookie hpassword
      have hallowed : decide (adminToken ≠ "") = false →
          later.contest.allowPasswordAuthentication = true ∧ ¬later.Forbids ipAddress p := by
        intro htoken
        unfold Site.Forbids
        rw [hsame.1]
        exact hchecked (by simpa using htoken)
      have hrequest := authenticateRequest_eq_some hlib (hsame.1 ▸ hauto)
        (hsame.2.trans hp) hallowed now htime (heq ▸ hsent)
      exact ⟨_, hrequest,
        hsession.request hsame hsent htime (congrArg RequestResult.cookie hrequest)⟩
    · -- The restrictions of the login do not matter here: the session may have passed any sites.
      have heq := hsession.cookie_eq hlib hcookie hpassword
      simp only [hempty, ne_eq, not_true_eq_false, decide_false] at heq
      cases hreason with
      | inl hrecord => exact authenticateRequest_of_password hlib hauto hrecord (heq ▸ hsent)
      | inr hforbidden =>
          obtain ⟨q, hq, hforbids⟩ := hforbidden
          exact authenticateRequest_of_forbids hlib hauto hq hforbids (heq ▸ hsent)
  · intro later now next fromBrowser fromHeader ipAddress'
    exact authenticateRequest_allowed later now next fromBrowser fromHeader ipAddress'

/-! ## A login and a request -/

/-- What a cookie has in it. -/
abbrev CookieFields := String × String × ℚ × Bool

/-- Two cookies and their texts. -/
def aliceCookies : List (CookieFields × String) :=
  [(("alice", "plaintext:secret", 100, false), "[\"alice\", \"plaintext:secret\", 100.0, false]"),
    (("alice", "plaintext:secret", 160, false), "[\"alice\", \"plaintext:secret\", 160.0, false]")]

/-- A number for each cookie. -/
def numberOf (fields : CookieFields) : ℕ :=
  Encodable.encode (fields.1.toList.map Char.toNat, fields.2.1.toList.map Char.toNat, fields.2.2)

/-- The cookie of a number. -/
def fieldsOf (number : ℕ) : Option CookieFields :=
  (Encodable.decode number : Option (List ℕ × List ℕ × ℚ × Bool)).map fun fields =>
    (String.ofList (fields.1.map Char.ofNat), String.ofList (fields.2.1.map Char.ofNat), fields.2.2)

/-- The JSON library on the two cookies; it writes other cookies as that many blanks. -/
def aliceLibrary : JsonLibrary where
  dumps
    | .list [.str username, .str password, .float seconds, .bool impersonated] =>
        match aliceCookies.lookup (username, password, seconds, impersonated) with
        | some text => text
        | none => String.ofList
            (List.replicate (numberOf (username, password, seconds, impersonated)) ' ')
    | _ => ""
  loads text :=
    match aliceCookies.find? fun known => known.2 = text with
    | some known => .ok (fieldsJson known.1)
    | none =>
        match fieldsOf text.length with
        | some fields => .ok (fieldsJson fields)
        | none => .error (.valueError "Expecting value: line 1 column 1 (char 0)")
where
  fieldsJson (fields : CookieFields) : Json :=
    .list [.str fields.1, .str fields.2.1, .float fields.2.2.1, .bool fields.2.2.2]

theorem fieldsOf_numberOf (fields : CookieFields) : fieldsOf (numberOf fields) = some fields := by
  have hchars : ∀ text : String, String.ofList ((text.toList.map Char.toNat).map Char.ofNat) = text := by
    intro text
    rw [List.map_map]
    have hid : Char.ofNat ∘ Char.toNat = id := funext Char.ofNat_toNat
    rw [hid, List.map_id, String.ofList_toList]
  unfold fieldsOf numberOf
  rw [Encodable.encodek]
  simp only [Option.map_some, hchars]

theorem aliceLibrary_readsBackCookies : ReadsBackCookies aliceLibrary := by
  intro username password timestamp impersonated
  unfold JsonLibrary.ReadsBack cookieOf
  generalize timestamp.seconds = seconds
  by_cases hfirst : (username, password, seconds, impersonated) =
      ("alice", "plaintext:secret", (100 : ℚ), false)
  · simp only [Prod.mk.injEq] at hfirst
    obtain ⟨rfl, rfl, rfl, rfl⟩ := hfirst
    rfl
  by_cases hsecond : (username, password, seconds, impersonated) =
      ("alice", "plaintext:secret", (160 : ℚ), false)
  · simp only [Prod.mk.injEq] at hsecond
    obtain ⟨rfl, rfl, rfl, rfl⟩ := hsecond
    rfl
  have hunknown : aliceCookies.lookup (username, password, seconds, impersonated) = none := by
    simp only [aliceCookies, List.lookup_eq_none_iff]
    intro known hknown
    simp only [List.mem_cons, List.not_mem_nil, or_false] at hknown
    rcases hknown with rfl | rfl
    · simpa using hfirst
    · simpa using hsecond
  -- A text of blanks is no text of the two cookies.
  have hblanks : ∀ number, aliceCookies.find? (fun known =>
      known.2 = String.ofList (List.replicate number ' ')) = none := by
    intro number
    rw [List.find?_eq_none]
    intro known hknown hsame
    have hbracket : '[' ∈ known.2.toList := by
      simp only [aliceCookies, List.mem_cons, List.not_mem_nil, or_false] at hknown
      rcases hknown with rfl | rfl <;> decide
    rw [of_decide_eq_true hsame, String.toList_ofList] at hbracket
    exact absurd (List.eq_of_mem_replicate hbracket) (by decide)
  simp only [aliceLibrary, hunknown, hblanks, String.length_ofList, List.length_replicate,
    fieldsOf_numberOf]
  rfl

/-- 10.0.0.5. -/
def aliceAddress : Address := ⟨false, 167772165, by decide⟩

/-- A participation of 10.0.0.0/8. -/
def alice (password : String) : Participation where
  username := "alice"
  userPassword := password
  password := none
  ip := some [⟨false, 167772160, 8, by decide⟩]
  hidden := false

/-- A contest with restrictions, whose cookies last ten minutes. -/
def aliceSite (password : String) : Site where
  contestAdminToken := none
  cookieDuration := 600
  contest := ⟨true, true, false, true⟩
  participations := [alice password]
  distinct := List.nodup_singleton _

def loginTime : Datetime := ⟨100000000, by decide⟩

def visitTime : Datetime := ⟨160000000, by decide⟩

/-- A bcrypt library; the stored passwords here are not hashed. -/
def noBcrypt : Bcrypt Unit := ⟨fun _ _ => "", fun _ _ => false⟩

theorem session_agrees_with_login_alice :
    let site := aliceSite "plaintext:secret"
    ∃ cookie returned,
      validateLogin aliceLibrary noBcrypt site loginTime "alice" "secret" aliceAddress "" =
        (some (alice "plaintext:secret"), some cookie) ∧
      authenticateRequest aliceLibrary site visitTime visitTime (some cookie) none aliceAddress =
        ⟨some (alice "plaintext:secret"), some returned, false⟩ ∧
      authenticateRequest aliceLibrary (aliceSite "plaintext:changed") visitTime visitTime
        (some returned) none aliceAddress = .refused := by
  have hagree := session_agrees_with_login noBcrypt aliceLibrary_readsBackCookies
    (aliceSite "plaintext:secret") loginTime "alice" "secret" aliceAddress ""
  have hlogin : validateLogin aliceLibrary noBcrypt (aliceSite "plaintext:secret") loginTime
      "alice" "secret" aliceAddress "" = (some (alice "plaintext:secret"),
        some "[\"alice\", \"plaintext:secret\", 100.0, false]") := by decide +kernel
  obtain ⟨hkept, hchanged⟩ := hagree.1 _ _ hlogin
  have htime : visitTime.seconds - loginTime.seconds ≤
      (aliceSite "plaintext:secret").cookieDuration := by decide +kernel
  obtain ⟨returned, hreturned, -⟩ := hkept rfl _ _ .login (aliceSite "plaintext:secret")
    visitTime visitTime (some _) none ⟨rfl, rfl⟩ rfl htime
  refine ⟨_, returned, hlogin, hreturned, ?_⟩
  have hsession : Session aliceLibrary (fun _ => True) aliceAddress _ loginTime returned visitTime :=
    .request .login trivial rfl htime (congrArg RequestResult.cookie hreturned)
  exact hchanged rfl _ _ hsession (aliceSite "plaintext:changed") visitTime visitTime
    (some returned) none aliceAddress rfl rfl (.inl (by decide))

end

end Authentication
end Server
end ContestManagement
