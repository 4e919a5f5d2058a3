import Mathlib.Data.Rat.Defs
import Mathlib.Algebra.Order.Ring.Rat
import Mathlib.Algebra.Order.Group.MinMax
import Mathlib.Tactic.Linarith
import ContestManagement.Lib.Python

/-!
# The visibility of a ranking

A group is hidden in one window of time and frozen in another, and hidden wins over frozen.
`VisibilitySettings` has the bounds of the windows and the staff password; the public view at
a time follows from them.  `VisibilityState` remembers when an update last changed the view,
and `lastChange` adds the bounds that have passed.

The clock is a rational number, as a float is one, and the bounds are integers.  The message
authentication code of the staff cookie is a parameter: nothing depends on its value.
-/

namespace ContestManagement
namespace Ranking

open Lib

/-- `window_is_open`. -/
def windowIsOpen (start finish : Option ℤ) (now : ℚ) : Bool :=
  match start with
  | none => false
  | some start => start ≤ now && (match finish with
      | none => true
      | some finish => now < finish)

/-- `check_window`. -/
def checkWindow (start finish : Option ℤ) (what : String) : Except String Unit :=
  match start, finish with
  | some start, some finish =>
      if finish ≤ start then .error ("The " ++ what ++ " window must end after it starts.")
      else .ok ()
  | _, _ => .ok ()

structure VisibilitySettings where
  hideAt : Option ℤ := none
  showAt : Option ℤ := none
  freezeAt : Option ℤ := none
  unfreezeAt : Option ℤ := none
  staffPassword : Option String := none
  deriving DecidableEq

/-- What the public sees. -/
inductive PublicView
  | hidden
  | frozen (freezeAt : Option ℤ)
  | live
  deriving DecidableEq

namespace VisibilitySettings

def hidden (settings : VisibilitySettings) (now : ℚ) : Bool :=
  windowIsOpen settings.hideAt settings.showAt now

def frozen (settings : VisibilitySettings) (now : ℚ) : Bool :=
  !settings.hidden now && windowIsOpen settings.freezeAt settings.unfreezeAt now

def publicView (settings : VisibilitySettings) (now : ℚ) : PublicView :=
  if settings.hidden now then .hidden
  else if settings.frozen now then .frozen settings.freezeAt
  else .live

/-- The times at which the public view may change. -/
def boundaries (settings : VisibilitySettings) : List ℤ :=
  [settings.hideAt, settings.showAt, settings.freezeAt, settings.unfreezeAt].filterMap id

def hiddenSinceAlways : VisibilitySettings := { hideAt := some 0 }

/-! ## Reading the settings -/

/-- `parse_authentication`, of which only the failure counts. -/
def checkAuthentication (authentication : String) : Except String Unit :=
  if ':' ∈ authentication.toList then .ok () else .error "Authentication string not parsable."

/-- The staff password of the data. -/
def staffPasswordOf (data : List (String × PyValue)) : Except String (Option String) :=
  match data.lookup "staff_password" with
  | none => .error "staff_password is missing."
  | some .none => .ok none
  | some (.str password) => do
      checkAuthentication password
      return some password
  | some _ => .error "staff_password must be a string or null."

/-- One of the four times of the data. -/
def timeOf (data : List (String × PyValue)) (name : String) : Except String (Option ℤ) :=
  match data.lookup name with
  | none => .error (name ++ " is missing.")
  | some .none => .ok none
  | some (.int time) => .ok (some time)
  | some _ => .error (name ++ " must be an integer or null.")

def timeFields : List String := ["hide_at", "show_at", "freeze_at", "unfreeze_at"]

/-- The format with the four times. -/
def parseTimes (data : List (String × PyValue)) (staffPassword : Option String) :
    Except String VisibilitySettings := do
  let hideAt ← timeOf data "hide_at"
  let showAt ← timeOf data "show_at"
  let freezeAt ← timeOf data "freeze_at"
  let unfreezeAt ← timeOf data "unfreeze_at"
  checkWindow hideAt showAt "hide"
  checkWindow freezeAt unfreezeAt "freeze"
  return ⟨hideAt, showAt, freezeAt, unfreezeAt, staffPassword⟩

/-- The format that only says whether the group is hidden. -/
def parseHidden (hidden : PyValue) (staffPassword : Option String) :
    Except String VisibilitySettings :=
  match hidden with
  | .bool true => .ok { hiddenSinceAlways with staffPassword := staffPassword }
  | .bool false => .ok { staffPassword := staffPassword }
  | _ => .error "hidden must be a boolean."

/-- `parse_settings`. -/
def parse (data : PyValue) : Except String VisibilitySettings :=
  match data with
  | .dict data => do
      let staffPassword ← staffPasswordOf data
      let new := timeFields.any fun name => (data.lookup name).isSome
      match data.lookup "hidden", new with
      | some hidden, false => parseHidden hidden staffPassword
      | none, true => parseTimes data staffPassword
      | _, _ => .error "Send either hidden or the four times."
  | _ => .error "The settings must be an object."

/-- The fields of the settings in the wire format. -/
def fields (settings : VisibilitySettings) : List (String × PyValue) :=
  let time : Option ℤ → PyValue := fun time => time.elim .none .int
  [("hide_at", time settings.hideAt), ("show_at", time settings.showAt),
    ("freeze_at", time settings.freezeAt), ("unfreeze_at", time settings.unfreezeAt),
    ("staff_password", settings.staffPassword.elim .none .str)]

def toJson (settings : VisibilitySettings) : PyValue :=
  .dict settings.fields

/-- Windows that end after they start, and a staff password that can be read. -/
def Valid (settings : VisibilitySettings) : Prop :=
  checkWindow settings.hideAt settings.showAt "hide" = .ok () ∧
    checkWindow settings.freezeAt settings.unfreezeAt "freeze" = .ok () ∧
    ∀ password ∈ settings.staffPassword, checkAuthentication password = .ok ()

/-! ## The view between two times -/

/-- A window is open at both times or at neither, unless one of its bounds lies between. -/
theorem windowIsOpen_eq {start finish : Option ℤ} {a b : ℚ} (hab : a ≤ b)
    (hstart : ∀ t ∈ start, (t : ℚ) ≤ b → (t : ℚ) ≤ a)
    (hfinish : ∀ t ∈ finish, (t : ℚ) ≤ b → (t : ℚ) ≤ a) :
    windowIsOpen start finish b = windowIsOpen start finish a := by
  have hsame : ∀ t : ℤ, ((t : ℚ) ≤ b → (t : ℚ) ≤ a) → ((t : ℚ) ≤ b ↔ (t : ℚ) ≤ a) :=
    fun t ht => ⟨ht, fun h => h.trans hab⟩
  cases start with
  | none => rfl
  | some start =>
      have hopens := hsame start (hstart start rfl)
      cases finish with
      | none => simp [windowIsOpen, hopens]
      | some finish =>
          have hcloses := hsame finish (hfinish finish rfl)
          have hnot : b < finish ↔ a < finish := by
            rw [← not_le, ← not_le, hcloses]
          simp [windowIsOpen, hopens, hnot]

theorem mem_boundaries {settings : VisibilitySettings} {t : ℤ} :
    t ∈ settings.boundaries ↔ t ∈ settings.hideAt ∨ t ∈ settings.showAt ∨
      t ∈ settings.freezeAt ∨ t ∈ settings.unfreezeAt := by
  simp [boundaries, List.mem_filterMap, eq_comm]

/-- The group stays hidden, and stays frozen, while no boundary passes. -/
theorem windows_eq {settings : VisibilitySettings} {a b : ℚ} (hab : a ≤ b)
    (h : ∀ t ∈ settings.boundaries, (t : ℚ) ≤ b → (t : ℚ) ≤ a) :
    settings.hidden b = settings.hidden a ∧ settings.frozen b = settings.frozen a := by
  have hhidden : settings.hidden b = settings.hidden a := windowIsOpen_eq hab
    (fun t ht => h t (mem_boundaries.2 (Or.inl ht)))
    (fun t ht => h t (mem_boundaries.2 (Or.inr (Or.inl ht))))
  have hfreeze : windowIsOpen settings.freezeAt settings.unfreezeAt b =
      windowIsOpen settings.freezeAt settings.unfreezeAt a := windowIsOpen_eq hab
    (fun t ht => h t (mem_boundaries.2 (Or.inr (Or.inr (Or.inl ht)))))
    (fun t ht => h t (mem_boundaries.2 (Or.inr (Or.inr (Or.inr ht)))))
  refine ⟨hhidden, ?_⟩
  unfold frozen
  rw [hhidden, hfreeze]

theorem publicView_eq {settings : VisibilitySettings} {a b : ℚ} (hab : a ≤ b)
    (h : ∀ t ∈ settings.boundaries, (t : ℚ) ≤ b → (t : ℚ) ≤ a) :
    settings.publicView b = settings.publicView a := by
  obtain ⟨hhidden, hfrozen⟩ := windows_eq hab h
  unfold publicView
  rw [hhidden, hfrozen]

/-! ## Reading back what is sent -/

theorem timeOf_elim {data : List (String × PyValue)} {name : String} (time : Option ℤ)
    (h : data.lookup name = some (time.elim .none .int)) : timeOf data name = .ok time := by
  unfold timeOf
  rw [h]
  cases time <;> rfl

theorem staffPasswordOf_fields (settings : VisibilitySettings) :
    staffPasswordOf settings.fields = .ok settings.staffPassword ↔
      ∀ password ∈ settings.staffPassword, checkAuthentication password = .ok () := by
  have hlookup : settings.fields.lookup "staff_password" =
      some (settings.staffPassword.elim .none .str) := rfl
  unfold staffPasswordOf
  rw [hlookup]
  cases settings.staffPassword with
  | none => simp
  | some text =>
      cases htext : checkAuthentication text <;> simp [htext, bind, Except.bind, pure, Except.pure]

theorem parseTimes_fields (settings : VisibilitySettings) (password : Option String) :
    parseTimes settings.fields password = (do
      checkWindow settings.hideAt settings.showAt "hide"
      checkWindow settings.freezeAt settings.unfreezeAt "freeze"
      return { settings with staffPassword := password }) := by
  unfold parseTimes
  rw [timeOf_elim settings.hideAt rfl, timeOf_elim settings.showAt rfl,
    timeOf_elim settings.freezeAt rfl, timeOf_elim settings.unfreezeAt rfl]
  rfl

/-- Settings are read back as they were sent if and only if their windows end after they start
and their staff password can be read. -/
theorem parse_toJson_iff (settings : VisibilitySettings) :
    parse settings.toJson = .ok settings ↔ settings.Valid := by
  have hparse : parse settings.toJson = (do
      let password ← staffPasswordOf settings.fields
      parseTimes settings.fields password) := rfl
  rw [hparse, bind_eq_ok_iff, Valid, ← staffPasswordOf_fields]
  simp only [parseTimes_fields, bind_eq_ok_iff]
  constructor
  · rintro ⟨password, hpassword, ⟨⟩, hhide, ⟨⟩, hfreeze, hsettings⟩
    have hsame : password = settings.staffPassword :=
      congrArg staffPassword (Except.ok.inj hsettings)
    exact ⟨hhide, hfreeze, hsame ▸ hpassword⟩
  · rintro ⟨hhide, hfreeze, hpassword⟩
    exact ⟨_, hpassword, (), hhide, (), hfreeze, rfl⟩

end VisibilitySettings

/-! ## The state of a group -/

structure VisibilityState where
  settings : VisibilitySettings
  secret : String
  changedAt : ℚ
  deriving DecidableEq

/-- The state file of a group. -/
inductive StateFile
  | missing
  | unreadable
  | json (data : PyValue)

namespace VisibilityState

def hexDigit (c : Char) : Bool :=
  ('0' ≤ c && c ≤ '9') || ('a' ≤ c && c ≤ 'f') || ('A' ≤ c && c ≤ 'F')

/-- `bytes.fromhex` succeeds: pairs of digits, with white space between them. -/
def isHex : List Char → Bool
  | [] => true
  | c :: rest =>
      if c.isWhitespace then isHex rest
      else match rest with
        | d :: rest => hexDigit c && hexDigit d && isHex rest
        | [] => false

/-- The settings and the secret of a state file. -/
def readFile (data : PyValue) : Except String (VisibilitySettings × String) :=
  match data with
  | .dict items =>
      match items.lookup "secret" with
      | some (.str secret) =>
          if secret = "" then .error "Wrong secret."
          else if !isHex secret.toList then .error "Not a hexadecimal number."
          else do
            let settings ← VisibilitySettings.parse (.dict (items.filter fun item => item.1 ≠ "secret"))
            return (settings, secret)
      | _ => .error "Wrong secret."
  | _ => .error "Not an object."

/-- `_load`: a file that cannot be read hides the group. -/
def load (file : StateFile) (newSecret : String) : VisibilitySettings × String :=
  match file with
  | .missing => ({}, newSecret)
  | .unreadable => (.hiddenSinceAlways, newSecret)
  | .json data =>
      match readFile data with
      | .ok loaded => loaded
      | .error _ => (.hiddenSinceAlways, newSecret)

/-- A group that is hidden or frozen at the start counts as changed. -/
def start (file : StateFile) (newSecret : String) (now : ℚ) : VisibilityState :=
  let loaded := load file newSecret
  { settings := loaded.1
    secret := loaded.2
    changedAt := if loaded.1.publicView now ≠ .live then now else 0 }

/-- `update_settings`. -/
def updateSettings (state : VisibilityState) (settings : VisibilitySettings) (now : ℚ) :
    VisibilityState :=
  -- Only what the public sees now counts.
  let viewChanged := settings.publicView now ≠ state.settings.publicView now
  { state with
    settings := settings
    changedAt := if viewChanged then now else state.changedAt }

/-- When the public view last changed. -/
def lastChange (state : VisibilityState) (now : ℚ) : ℚ :=
  let passed := state.settings.boundaries.filter fun t : ℤ => (t : ℚ) ≤ now
  passed.foldl (fun m (t : ℤ) => max m (t : ℚ)) state.changedAt

theorem lt_foldl_max (times : List ℤ) (a m : ℚ) :
    a < times.foldl (fun m (t : ℤ) => max m (t : ℚ)) m ↔ a < m ∨ ∃ t ∈ times, a < (t : ℚ) := by
  induction times generalizing m with
  | nil => simp
  | cons t rest ih =>
      rw [List.foldl_cons, ih, lt_max_iff]
      simp [or_assoc]

/-- The last change is after a time if the last update that changed the view is, or a boundary
that has passed. -/
theorem lt_lastChange_iff {state : VisibilityState} {now a : ℚ} :
    a < state.lastChange now ↔
      a < state.changedAt ∨ ∃ t ∈ state.settings.boundaries, (t : ℚ) ≤ now ∧ a < (t : ℚ) := by
  unfold lastChange
  rw [lt_foldl_max]
  simp [and_assoc]

end VisibilityState

/-! ## The guard of the writes -/

/-- What the guard looks at in a request. -/
structure Request where
  staffCookie : Option String
  lastEventId : Option String
  lastEventIdArg : Option String
  deriving DecidableEq

/-- The guard of a group, with the value of the staff cookie for a secret, a group and a
password. -/
structure VisibilityGuard where
  group : String
  staffCookieValue : String → String → String → String

/-- A stream of events that was opened, with the view it was opened under. -/
structure Stream where
  request : Request
  openedAt : ℚ
  servedAsStaff : Bool
  view : PublicView
  deriving DecidableEq

namespace VisibilityGuard

variable (guard : VisibilityGuard)

/-- `_is_staff`. -/
def isStaff (state : VisibilityState) (request : Request) : Bool :=
  match state.settings.staffPassword, request.staffCookie with
  | some stored, some cookie => cookie = guard.staffCookieValue state.secret guard.group stored
  | _, _ => false

/-- A public client of a hidden group, or one that lost the staff's view of a frozen group. -/
def barred (state : VisibilityState) (stream : Stream) (now : ℚ) : Bool :=
  !guard.isStaff state stream.request &&
    (state.settings.hidden now || stream.servedAsStaff && state.settings.frozen now)

/-- `cut` in `guarded_write`. -/
def cut (state : VisibilityState) (stream : Stream) (now : ℚ) : Bool :=
  state.lastChange now > stream.openedAt || guard.barred state stream now

/-- The value of a hexadecimal number. -/
def hexValue (digits : List Char) : ℕ :=
  digits.foldl (fun n c => 16 * n +
    if c.isDigit then c.toNat - '0'.toNat else c.toLower.toNat - 'a'.toNat + 10) 0

/-- `_missed_a_change`: the last event of the client is older than the last change. -/
def missedAChange (state : VisibilityState) (request : Request) (now : ℚ) : Bool :=
  let lastId := match request.lastEventId with
    | some id => if id = "" then request.lastEventIdArg else some id
    | none => request.lastEventIdArg
  match lastId with
  | some id => id ≠ "" && id.toList.all VisibilityState.hexDigit &&
      (hexValue id.toList : ℚ) < state.lastChange now * 1000000
  | none => false

/-- A request for the events opens a stream, unless the client has to reload or the group is
hidden from it. -/
def openEvents (state : VisibilityState) (request : Request) (now : ℚ) : Option Stream :=
  let staff := guard.isStaff state request
  if missedAChange state request now then none
  else if !staff && state.settings.hidden now then none
  else some ⟨request, now, staff, state.settings.publicView now⟩

variable {guard} {state : VisibilityState} {stream : Stream} {now : ℚ}

theorem cut_eq_true_iff : guard.cut state stream now = true ↔
    (stream.openedAt < state.changedAt ∨
      ∃ t ∈ state.settings.boundaries, (t : ℚ) ≤ now ∧ stream.openedAt < (t : ℚ)) ∨
    guard.barred state stream now = true := by
  unfold cut
  rw [Bool.or_eq_true, decide_eq_true_eq, gt_iff_lt, VisibilityState.lt_lastChange_iff]

/-- A stream that was cut stays cut as the clock goes on. -/
theorem cut_of_le {later : ℚ} (hopened : stream.openedAt ≤ now) (hlater : now ≤ later)
    (h : guard.cut state stream now = true) : guard.cut state stream later = true := by
  rw [cut_eq_true_iff] at h ⊢
  rcases h with (hchanged | ⟨t, ht, hpassed, hafter⟩) | hbarred
  · exact Or.inl (Or.inl hchanged)
  · exact Or.inl (Or.inr ⟨t, ht, hpassed.trans hlater, hafter⟩)
  · by_cases hcross : ∃ t ∈ state.settings.boundaries, (t : ℚ) ≤ later ∧ now < (t : ℚ)
    · obtain ⟨t, ht, hpassed, hafter⟩ := hcross
      exact Or.inl (Or.inr ⟨t, ht, hpassed, hopened.trans_lt hafter⟩)
    · have hnone : ∀ t ∈ state.settings.boundaries, (t : ℚ) ≤ later → (t : ℚ) ≤ now :=
        fun t ht hpassed => not_lt.1 fun hafter => hcross ⟨t, ht, hpassed, hafter⟩
      obtain ⟨hhidden, hfrozen⟩ := VisibilitySettings.windows_eq hlater hnone
      right
      unfold barred at hbarred ⊢
      rwa [hhidden, hfrozen]

end VisibilityGuard

end Ranking
end ContestManagement
