import Mathlib.Algebra.Order.Ring.Unbundled.Rat
import Mathlib.Data.List.DropRight
import Mathlib.Data.Rat.Defs
import Mathlib.Tactic.Linarith
import ContestManagement.Lib.Machine

/-!
# The log of the notifications that fail

A `NotificationFailureLatch` counts the notifications that a peer did not get since the last one it
got, and logs few of them.  What it is for is said without its counters: `expected` gives what an
event logs from the events and the records before it.  The clock may do what it likes.
-/

namespace ContestManagement
namespace Io

open Lib

/-- A `WARNING` is logged at most once in so many seconds. -/
def warningInterval : ℚ := 60

/-- Why a notification failed. -/
inductive NotifyError
  | notConfigured
  | timeout
  | raised (className message : String)

/-- The reason that is logged, none for a peer that is not configured. -/
def NotifyError.reason? : NotifyError → Option String
  | .notConfigured => none
  | .timeout => some "no answer in time"
  | .raised className message => some (className ++ ": " ++ message)

/-- `reason.partition("\n")[0]`. -/
def partitionLine (reason : String) : String := String.ofList (reason.toList.takeWhile (· ≠ '\n'))

inductive LogLevel
  | debug
  | info
  | warning
  deriving DecidableEq

/-- What is logged.  The times of the wall clock are of any type. -/
inductive LatchMessage (δ : Type)
  | notConfigured (notification : String)
  | dropped (notification reason : String)
  | cannot (reason : String)
  | stillCannot (reason : String) (dropped : Nat) (since : δ)
  | again (dropped : Nat) (since : δ)

/-- What the texts of a latch have in common. -/
structure LatchNames (δ : Type) where
  source : String
  peer : String
  consequence : String
  strftime : δ → String

/-- The text of a message. -/
def LatchMessage.text {δ : Type} (names : LatchNames δ) : LatchMessage δ → String
  | .notConfigured notification =>
      names.source ++ " did not notify " ++ names.peer ++ " of " ++ notification ++
        ": it is not configured."
  | .dropped notification reason =>
      names.source ++ " did not notify " ++ names.peer ++ " of " ++ notification ++ " (" ++ reason ++
        ")."
  | .cannot reason =>
      names.source ++ " cannot notify " ++ names.peer ++ " (" ++ reason ++ "); " ++
        names.consequence ++ "."
  | .stillCannot reason count since =>
      names.source ++ " still cannot notify " ++ names.peer ++ " (" ++ reason ++ "): " ++
        toString count ++ " notification(s) dropped since " ++ names.strftime since ++ "; " ++
        names.consequence ++ "."
  | .again count since =>
      names.source ++ " can notify " ++ names.peer ++ " again: " ++ toString count ++
        " notification(s) dropped since " ++ names.strftime since ++ "."

structure LatchRecord (δ : Type) where
  level : LogLevel
  message : LatchMessage δ

def LatchRecord.isWarning {δ : Type} (record : LatchRecord δ) : Bool := record.level = .warning

structure NotificationFailureLatch (δ : Type) where
  dropped : Nat
  failingSince : Option δ
  warned : Bool
  lastWarning : Option ℚ

namespace NotificationFailureLatch

variable {δ : Type}

def new : NotificationFailureLatch δ := ⟨0, none, false, none⟩

/-- The latch after a notification that reached the peer, and what it logs; none if it raises. -/
def succeeded (l : NotificationFailureLatch δ) :
    Option (NotificationFailureLatch δ × List (LatchRecord δ)) :=
  if l.dropped = 0 then some (l, [])
  else
    -- `None` has no `strftime`.
    l.failingSince.map fun since =>
      ({ l with dropped := 0, failingSince := none, warned := false },
        [⟨if l.warned then .info else .debug, .again l.dropped since⟩])

/-- The `WARNING` of a failure that was counted. -/
def warn (l : NotificationFailureLatch δ) (reason : String) : Option (LatchMessage δ) :=
  if l.dropped = 1 then some (.cannot (partitionLine reason))
  else l.failingSince.map fun since => .stillCannot (partitionLine reason) l.dropped since

/-- A failure that counts. -/
def drop (l : NotificationFailureLatch δ) (notification reason : String) (now : ℚ) (wall : δ) :
    Option (NotificationFailureLatch δ × List (LatchRecord δ)) :=
  let counted : NotificationFailureLatch δ :=
    { l with
      dropped := l.dropped + 1
      failingSince := if l.dropped + 1 = 1 then some wall else l.failingSince }
  if l.lastWarning.any fun last => now - last < warningInterval then
    some (counted, [⟨.debug, .dropped notification reason⟩])
  else
    (counted.warn reason).map fun message =>
      ({ counted with lastWarning := some now, warned := true },
        [⟨.debug, .dropped notification reason⟩, ⟨.warning, message⟩])

/-- `failed`, at a time of each of the two clocks. -/
def failed (l : NotificationFailureLatch δ) (notification : String) (error : NotifyError) (now : ℚ)
    (wall : δ) : Option (NotificationFailureLatch δ × List (LatchRecord δ)) :=
  match error.reason? with
  | none => some (l, [⟨.debug, .notConfigured notification⟩])
  | some reason => l.drop notification reason now wall

end NotificationFailureLatch

/-- What a latch is told. -/
inductive LatchEvent (δ : Type)
  | succeeded (now : ℚ)
  | failed (notification : String) (error : NotifyError) (now : ℚ) (wall : δ)

namespace LatchEvent

variable {δ : Type}

def now : LatchEvent δ → ℚ
  | .succeeded now => now
  | .failed _ _ now _ => now

def isSuccess : LatchEvent δ → Bool
  | .succeeded _ => true
  | .failed .. => false

/-- When the peer missed a notification. -/
def missed? : LatchEvent δ → Option δ
  | .succeeded _ => none
  | .failed _ error _ wall => error.reason?.map fun _ => wall

end LatchEvent

/-- The events so far, each with what it logged. -/
abbrev LatchHistory (δ : Type) : Type := List (LatchEvent δ × List (LatchRecord δ))

namespace LatchHistory

variable {δ : Type}

/-- What came after the last success. -/
def sinceSuccess (history : LatchHistory δ) : LatchHistory δ :=
  history.rtakeWhile fun entry => !entry.1.isSuccess

/-- When the notifications were missed that the peer has not got since it last got one. -/
def outage (history : LatchHistory δ) : List δ :=
  history.sinceSuccess.filterMap fun entry => entry.1.missed?

/-- The outage logged a `WARNING`. -/
def warned (history : LatchHistory δ) : Bool :=
  history.sinceSuccess.any fun entry => entry.2.any LatchRecord.isWarning

/-- The times of the `WARNING`s. -/
def warnings (history : LatchHistory δ) : List ℚ :=
  (history.filter fun entry => entry.2.any LatchRecord.isWarning).map fun entry => entry.1.now

/-- The `WARNING` of a failure, after those of an outage. -/
def warning (reason : String) : List δ → LatchMessage δ
  | [] => .cannot (partitionLine reason)
  | first :: rest => .stillCannot (partitionLine reason) (rest.length + 2) first

/-- What an event should log after a history: the end of an outage, as an `INFO` if the outage logged
a `WARNING`, each failure, and a `WARNING` with how many failures there were since when, unless the
last one was less than an interval ago. -/
def expected (history : LatchHistory δ) : LatchEvent δ → List (LatchRecord δ)
  | .succeeded _ =>
      match history.outage with
      | [] => []
      | first :: rest =>
          [⟨if history.warned then .info else .debug, .again (rest.length + 1) first⟩]
  | .failed notification error now _ =>
      match error.reason? with
      | none => [⟨.debug, .notConfigured notification⟩]
      | some reason =>
          ⟨.debug, .dropped notification reason⟩ ::
            if ∀ time ∈ history.warnings, warningInterval ≤ now - time then
              [⟨.warning, warning reason history.outage⟩]
            else []

variable (history : LatchHistory δ) (records : List (LatchRecord δ))

@[simp] theorem sinceSuccess_succeeded (now : ℚ) :
    sinceSuccess (history ++ [(.succeeded now, records)]) = [] :=
  List.rtakeWhile_concat_neg _ _ _ (by simp [LatchEvent.isSuccess])

@[simp] theorem sinceSuccess_failed (notification : String) (error : NotifyError) (now : ℚ)
    (wall : δ) :
    sinceSuccess (history ++ [(.failed notification error now wall, records)]) =
      sinceSuccess history ++ [(.failed notification error now wall, records)] :=
  List.rtakeWhile_concat_pos _ _ _ (by simp [LatchEvent.isSuccess])

@[simp] theorem outage_succeeded (now : ℚ) :
    outage (history ++ [(.succeeded now, records)]) = [] := by
  simp [outage]

@[simp] theorem outage_failed (notification : String) (error : NotifyError) (now : ℚ) (wall : δ) :
    outage (history ++ [(.failed notification error now wall, records)]) =
      outage history ++ (error.reason?.map fun _ => wall).toList := by
  rw [outage, sinceSuccess_failed, List.filterMap_append]
  show outage history ++ _ = _
  cases hreason : error.reason? <;> simp [LatchEvent.missed?, hreason]

@[simp] theorem warned_succeeded (now : ℚ) :
    warned (history ++ [(.succeeded now, records)]) = false := by
  simp [warned]

@[simp] theorem warned_failed (notification : String) (error : NotifyError) (now : ℚ) (wall : δ) :
    warned (history ++ [(.failed notification error now wall, records)]) =
      (warned history || records.any LatchRecord.isWarning) := by
  simp [warned]

@[simp] theorem warnings_concat (event : LatchEvent δ) :
    warnings (history ++ [(event, records)]) =
      warnings history ++ if records.any LatchRecord.isWarning then [event.now] else [] := by
  rw [warnings, List.filter_append, List.map_append]
  show warnings history ++ _ = _
  by_cases hwarning : records.any LatchRecord.isWarning = true <;> simp [hwarning]

end LatchHistory

/-! ## Runs of a latch -/

/-- A latch with its history. -/
structure LatchRun (δ : Type) where
  latch : NotificationFailureLatch δ
  history : LatchHistory δ

namespace LatchRun

variable {δ : Type}

def handle (l : NotificationFailureLatch δ) :
    LatchEvent δ → Option (NotificationFailureLatch δ × List (LatchRecord δ))
  | .succeeded _ => l.succeeded
  | .failed notification error now wall => l.failed notification error now wall

def step (s : LatchRun δ) (event : LatchEvent δ) : Option (LatchRun δ) :=
  (handle s.latch event).map fun result => ⟨result.1, s.history ++ [(event, result.2)]⟩

/-- The counters of the latch are those of its history. -/
structure Tracks (s : LatchRun δ) : Prop where
  dropped : s.latch.dropped = s.history.outage.length
  since : s.latch.failingSince = s.history.outage.head?
  warned : s.latch.warned = s.history.warned
  last : s.latch.lastWarning = s.history.warnings.getLast?
  spaced : s.history.warnings.Pairwise fun a b => warningInterval ≤ b - a
  quiet : s.history.outage = [] → s.history.warned = false

variable {s t : LatchRun δ}

theorem Tracks.mayWarn (h : s.Tracks) (now : ℚ) :
    (s.latch.lastWarning.any fun last => now - last < warningInterval) = false ↔
      ∀ time ∈ s.history.warnings, warningInterval ≤ now - time := by
  rw [h.last]
  have hspaced := h.spaced
  -- The last one is the latest.
  rcases List.eq_nil_or_concat s.history.warnings with hnil | ⟨earlier, last, hlast⟩
  · simp [hnil]
  · rw [List.concat_eq_append] at hlast
    rw [hlast] at hspaced ⊢
    rw [List.getLast?_concat, Option.any_some, decide_eq_false_iff_not, not_lt]
    constructor
    · intro hnow time htime
      rcases List.mem_append.1 htime with hearlier | hself
      · have hgap := (List.pairwise_append.1 hspaced).2.2 time hearlier last (by simp)
        have hpositive : (0 : ℚ) ≤ warningInterval := by norm_num [warningInterval]
        linarith
      · rw [List.mem_singleton.1 hself]
        exact hnow
    · intro hall
      exact hall last (by simp)

/-- A success logs what it should, and the counters go on with it. -/
theorem Tracks.succeeded (h : s.Tracks) (now : ℚ) :
    ∃ latch, handle s.latch (.succeeded now) = some (latch, s.history.expected (.succeeded now)) ∧
      Tracks ⟨latch, s.history ++ [(.succeeded now, s.history.expected (.succeeded now))]⟩ := by
  have hsilent : (s.history.expected (.succeeded now)).any LatchRecord.isWarning = false := by
    unfold LatchHistory.expected
    cases s.history.outage with
    | nil => rfl
    | cons first rest => cases s.history.warned <;> rfl
  have hwarnings : LatchHistory.warnings
      (s.history ++ [(.succeeded now, s.history.expected (.succeeded now))]) =
        s.history.warnings := by
    rw [LatchHistory.warnings_concat, hsilent]
    simp
  have htracks (latch : NotificationFailureLatch δ) (hdropped : latch.dropped = 0)
      (hsince : latch.failingSince = none) (hwarned : latch.warned = false)
      (hlast : latch.lastWarning = s.latch.lastWarning) :
      Tracks ⟨latch, s.history ++ [(.succeeded now, s.history.expected (.succeeded now))]⟩ := by
    refine ⟨by simp [hdropped], by simp [hsince], by simp [hwarned], ?_, ?_, fun _ => by simp⟩
    · show latch.lastWarning = _
      rw [hwarnings, hlast, h.last]
    · show List.Pairwise _ _
      rw [hwarnings]
      exact h.spaced
  have hcount := h.dropped
  have hhead := h.since
  show ∃ latch, s.latch.succeeded = _ ∧ _
  unfold NotificationFailureLatch.succeeded
  cases houtage : s.history.outage with
  | nil =>
      rw [houtage] at hcount hhead
      refine ⟨s.latch, ?_, htracks _ hcount hhead (h.warned.trans (h.quiet houtage)) rfl⟩
      rw [if_pos (show s.latch.dropped = 0 from hcount), LatchHistory.expected, houtage]
  | cons first rest =>
      rw [houtage] at hcount hhead
      have hmissed : s.latch.dropped ≠ 0 := by
        rw [hcount]
        exact Nat.succ_ne_zero _
      refine ⟨_, ?_, htracks { s.latch with dropped := 0, failingSince := none, warned := false }
        rfl rfl rfl rfl⟩
      rw [if_neg hmissed, hhead, LatchHistory.expected, houtage, hcount, h.warned]
      rfl

/-- The `WARNING` tells of all the failures of the outage. -/
theorem warn_eq {counted : NotificationFailureLatch δ} {outage : List δ} {wall : δ}
    (hdropped : counted.dropped = outage.length + 1)
    (hsince : counted.failingSince = (outage ++ [wall]).head?) (reason : String) :
    counted.warn reason = some (LatchHistory.warning reason outage) := by
  unfold NotificationFailureLatch.warn
  cases outage with
  | nil =>
      rw [if_pos (show counted.dropped = 1 from hdropped)]
      rfl
  | cons first rest =>
      have hmore : counted.dropped ≠ 1 := by
        rw [hdropped, List.length_cons]
        omega
      rw [if_neg hmore, hsince, hdropped]
      rfl

/-- A failure logs what it should, and the counters go on with it. -/
theorem Tracks.failed (h : s.Tracks) (notification : String) (error : NotifyError) (now : ℚ)
    (wall : δ) :
    ∃ latch, handle s.latch (.failed notification error now wall) =
        some (latch, s.history.expected (.failed notification error now wall)) ∧
      Tracks ⟨latch, s.history ++ [(.failed notification error now wall,
        s.history.expected (.failed notification error now wall))]⟩ := by
  show ∃ latch, s.latch.failed notification error now wall = _ ∧ _
  unfold NotificationFailureLatch.failed
  cases hreason : error.reason? with
  | none =>
      have hexpected : s.history.expected (.failed notification error now wall) =
          [⟨.debug, .notConfigured notification⟩] := by
        simp [LatchHistory.expected, hreason]
      rw [hexpected]
      refine ⟨s.latch, rfl, ?_, ?_, ?_, ?_, ?_, ?_⟩
      · simp [hreason, h.dropped]
      · simp [hreason, h.since]
      · simp [LatchRecord.isWarning, h.warned]
      · simp [LatchRecord.isWarning, h.last]
      · simpa [LatchRecord.isWarning] using h.spaced
      · simpa [hreason, LatchRecord.isWarning] using h.quiet
  | some reason =>
      have hdropped : s.latch.dropped + 1 = s.history.outage.length + 1 := by rw [h.dropped]
      have hsince : (if s.latch.dropped + 1 = 1 then some wall else s.latch.failingSince) =
          (s.history.outage ++ [wall]).head? := by
        rw [h.dropped, h.since]
        cases s.history.outage with
        | nil => rfl
        | cons first rest => simp
      show ∃ latch, s.latch.drop notification reason now wall = _ ∧ _
      unfold NotificationFailureLatch.drop
      cases hmay : s.latch.lastWarning.any fun last => now - last < warningInterval with
      | true =>
          have hrecent : ¬ ∀ time ∈ s.history.warnings, warningInterval ≤ now - time := by
            rw [← h.mayWarn, hmay]
            decide
          have hexpected : s.history.expected (.failed notification error now wall) =
              [⟨.debug, .dropped notification reason⟩] := by
            simp only [LatchHistory.expected, hreason, if_neg hrecent]
          rw [hexpected]
          refine ⟨_, rfl, ?_, ?_, ?_, ?_, ?_, ?_⟩
          · simp [hreason, h.dropped]
          · simpa [hreason] using hsince
          · simp [LatchRecord.isWarning, h.warned]
          · simp [LatchRecord.isWarning, h.last]
          · simpa [LatchRecord.isWarning] using h.spaced
          · simp [hreason]
      | false =>
          have hdue := (h.mayWarn now).1 hmay
          have hmessage := @warn_eq δ { s.latch with
            dropped := s.latch.dropped + 1
            failingSince := if s.latch.dropped + 1 = 1 then some wall else s.latch.failingSince }
            s.history.outage wall hdropped hsince reason
          have hexpected : s.history.expected (.failed notification error now wall) =
              [⟨.debug, .dropped notification reason⟩,
                ⟨.warning, LatchHistory.warning reason s.history.outage⟩] := by
            simp only [LatchHistory.expected, hreason, if_pos hdue]
          rw [hexpected]
          simp only [hmessage, Option.map_some, Bool.false_eq_true, if_false]
          refine ⟨_, rfl, ?_, ?_, ?_, ?_, ?_, ?_⟩
          · simp [hreason, h.dropped]
          · simpa [hreason] using hsince
          · simp [LatchRecord.isWarning]
          · simp [LatchRecord.isWarning, LatchEvent.now]
          · simp only [LatchHistory.warnings_concat]
            rw [if_pos (by simp [LatchRecord.isWarning])]
            refine List.pairwise_append.2 ⟨h.spaced, List.pairwise_singleton _ _, ?_⟩
            intro time htime last hlast
            rw [List.mem_singleton.1 hlast]
            exact hdue time htime
          · simp [hreason]

theorem Tracks.handle (h : s.Tracks) (event : LatchEvent δ) :
    ∃ latch, LatchRun.handle s.latch event = some (latch, s.history.expected event) ∧
      Tracks ⟨latch, s.history ++ [(event, s.history.expected event)]⟩ := by
  cases event with
  | succeeded now => exact h.succeeded now
  | failed notification error now wall => exact h.failed notification error now wall

end LatchRun

/-- A latch that is told of any events at any times. -/
def latchMachine (δ : Type) : Lib.Machine (LatchRun δ) (LatchEvent δ) where
  init s := s = ⟨NotificationFailureLatch.new, []⟩
  step := LatchRun.step

/-- Every event has logged what it should. -/
def LatchHistory.Faithful {δ : Type} (history : LatchHistory δ) : Prop :=
  ∀ before event records after, history = before ++ (event, records) :: after →
    records = LatchHistory.expected before event

theorem LatchHistory.Faithful.concat {δ : Type} {history : LatchHistory δ} (h : history.Faithful)
    (event : LatchEvent δ) : Faithful (history ++ [(event, history.expected event)]) := by
  intro before event' records after hsplit
  rcases List.eq_nil_or_concat after with rfl | ⟨earlier, last, rfl⟩
  · obtain ⟨rfl, hlast⟩ := List.append_inj' hsplit rfl
    rw [List.singleton_inj, Prod.mk.injEq] at hlast
    rw [← hlast.1, ← hlast.2]
  · rw [List.concat_eq_append, ← List.cons_append, ← List.append_assoc] at hsplit
    obtain ⟨hbefore, -⟩ := List.append_inj' hsplit rfl
    exact h before event' records earlier hbefore

theorem latch_tracks {δ : Type} {s : LatchRun δ} (h : (latchMachine δ).Reachable s) :
    s.Tracks ∧ s.history.Faithful := by
  refine Machine.Reachable.invariant (I := fun s => s.Tracks ∧ s.history.Faithful) ?_ ?_ h
  · rintro s rfl
    refine ⟨⟨rfl, rfl, rfl, rfl, List.Pairwise.nil, fun _ => rfl⟩, ?_⟩
    intro before event records after hsplit
    simp at hsplit
  · intro s event t ⟨htracks, hfaithful⟩ hstep
    obtain ⟨latch, hhandle, hnext⟩ := htracks.handle event
    have hmove : LatchRun.step s event =
        some ⟨latch, s.history ++ [(event, s.history.expected event)]⟩ := by
      rw [LatchRun.step, hhandle]
      rfl
    obtain rfl := Option.some.inj (hmove.symm.trans hstep)
    exact ⟨hnext, hfaithful.concat event⟩

/-! ## The texts -/

/-- A text without a line break. -/
def OneLine (text : String) : Prop := '\n' ∉ text.toList

theorem OneLine.append {a b : String} (ha : OneLine a) (hb : OneLine b) : OneLine (a ++ b) := by
  unfold OneLine at *
  rw [String.toList_append, List.mem_append]
  exact not_or.2 ⟨ha, hb⟩

theorem oneLine_partitionLine (reason : String) : OneLine (partitionLine reason) := by
  intro hmem
  rw [partitionLine, String.toList_ofList] at hmem
  have hplain := List.mem_takeWhile_imp hmem
  simp at hplain

theorem oneLine_count (count : Nat) : OneLine (toString count) := by
  intro hmem
  have hdigit : ('\n').isDigit = true :=
    Nat.isDigit_of_mem_toDigits (by decide) (by decide) (Nat.toList_repr ▸ hmem)
  exact absurd hdigit (by decide)

/-- The names in the texts hold no line break. -/
structure LatchNames.Plain {δ : Type} (names : LatchNames δ) : Prop where
  source : OneLine names.source
  peer : OneLine names.peer
  consequence : OneLine names.consequence
  strftime : ∀ since, OneLine (names.strftime since)

/-- Whatever the error says, a `WARNING` is one line. -/
theorem LatchHistory.oneLine_warning {δ : Type} {names : LatchNames δ} (h : names.Plain)
    (reason : String) (outage : List δ) : OneLine ((warning reason outage).text names) := by
  have hliteral : ∀ text ∈ [" cannot notify ", " still cannot notify ", " (", "); ", ".", "): ",
      " notification(s) dropped since ", "; "], OneLine text := by
    unfold OneLine
    decide
  cases outage with
  | nil =>
      have hends : OneLine (names.source ++ " cannot notify " ++ names.peer ++ " (") :=
        ((h.source.append (hliteral _ (by simp))).append h.peer).append (hliteral _ (by simp))
      exact (((hends.append (oneLine_partitionLine reason)).append (hliteral _ (by simp))).append
        h.consequence).append (hliteral _ (by simp))
  | cons first rest =>
      have hends : OneLine (names.source ++ " still cannot notify " ++ names.peer ++ " (") :=
        ((h.source.append (hliteral _ (by simp))).append h.peer).append (hliteral _ (by simp))
      have hcount := ((hends.append (oneLine_partitionLine reason)).append
        (hliteral "): " (by simp))).append (oneLine_count (rest.length + 2))
      exact (((((hcount.append (hliteral _ (by simp))).append (h.strftime first)).append
        (hliteral _ (by simp))).append h.consequence).append (hliteral _ (by simp)))

theorem LatchHistory.oneLine_expected {δ : Type} {names : LatchNames δ} (h : names.Plain)
    (history : LatchHistory δ) (event : LatchEvent δ) {record : LatchRecord δ}
    (hrecord : record ∈ history.expected event) (hwarning : record.isWarning = true) :
    OneLine (record.message.text names) := by
  cases event with
  | succeeded now =>
      unfold expected at hrecord
      cases houtage : history.outage with
      | nil => simp [houtage] at hrecord
      | cons first rest =>
          simp only [houtage, List.mem_singleton] at hrecord
          subst hrecord
          cases hwarned : history.warned <;> simp [LatchRecord.isWarning, hwarned] at hwarning
  | failed notification error now wall =>
      unfold expected at hrecord
      cases hreason : error.reason? with
      | none =>
          simp only [hreason, List.mem_singleton] at hrecord
          subst hrecord
          cases hwarning
      | some reason =>
          simp only [hreason, List.mem_cons] at hrecord
          rcases hrecord with rfl | hrecord
          · cases hwarning
          · split at hrecord
            case isTrue =>
              rw [List.mem_singleton] at hrecord
              subst hrecord
              exact oneLine_warning h reason history.outage
            case isFalse => cases hrecord

/-- Whatever a latch is told and whatever its clock says, it never raises, and each event logs what
it should from those before it: a `WARNING` that tells of the failures of the outage unless there was
one less than an interval ago, and the end of an outage as an `INFO` if it had a `WARNING`.  Any two
`WARNING`s are an interval apart, and each is one line. -/
theorem latch_reports {δ : Type} {s : LatchRun δ} (h : (latchMachine δ).Reachable s) :
    s.history.Faithful ∧
    (s.history.warnings.Pairwise fun a b => warningInterval ≤ b - a) ∧
    (∀ event, ∃ t, s.step event = some t) ∧
    ∀ names : LatchNames δ, names.Plain → ∀ entry ∈ s.history, ∀ record ∈ entry.2,
      record.isWarning = true → OneLine (record.message.text names) := by
  obtain ⟨htracks, hfaithful⟩ := latch_tracks h
  refine ⟨hfaithful, htracks.spaced, fun event => ?_, ?_⟩
  · obtain ⟨latch, hhandle, -⟩ := htracks.handle event
    exact ⟨_, by rw [LatchRun.step, hhandle]; rfl⟩
  · intro names hnames entry hentry record hrecord hwarning
    obtain ⟨before, after, hsplit⟩ := List.append_of_mem hentry
    have hrecords := hfaithful before entry.1 entry.2 after hsplit
    rw [hrecords] at hrecord
    exact LatchHistory.oneLine_expected hnames before entry.1 hrecord hwarning

/-- A peer that flaps: the second outage starts within the interval. -/
def flappingRun : LatchRun Nat :=
  ((latchMachine Nat).exec ⟨NotificationFailureLatch.new, []⟩
    [.failed "1" .timeout 0 100, .failed "2" (.raised "RPCError" "no\nroute") 10 110, .succeeded 20,
      .failed "3" .timeout 30 130, .failed "4" .notConfigured 40 140, .failed "5" .timeout 60 160,
      .succeeded 70]).get (by decide +kernel)

theorem latch_reports_flapping :
    flappingRun.history.Faithful ∧ flappingRun.history.warnings = [0, 60] ∧
      flappingRun.history.map (fun entry => entry.2.map LatchRecord.level) =
        [[.debug, .warning], [.debug], [.info], [.debug], [.debug], [.debug, .warning], [.info]] := by
  obtain ⟨hfaithful, -⟩ :=
    latch_reports (Machine.reachable_of_exec rfl (Option.some_get _).symm : (latchMachine Nat).Reachable
      flappingRun)
  exact ⟨hfaithful, by decide +kernel, by decide +kernel⟩

end Io
end ContestManagement
