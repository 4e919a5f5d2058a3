import Mathlib.Algebra.Order.Ring.Rat
import ContestManagement.Lib.SlidingWindow
import ContestManagement.Watchdog.Actions

/-!
# The budgets of the watchdog

In every window of an hour the bookings of a run, for real and in the shadow, stay within the
budgets: those of a program, those of a pool, and those of the starts of a program.  The policy only
looks at its ledger, which is pruned in every cycle and is read back from a file when the watchdog
starts; `Accounted` says that the ledger has all that is recent, or that the budgets count as
exhausted for as long as it might not.
-/

namespace ContestManagement
namespace Watchdog

open Lib

/-! ## What a budget counts -/

/-- The bookings of an action on a program. -/
def Booking.isOf (program : String) (action : Action) (b : Booking) : Bool :=
  b.program = program && b.action = action

/-- The bookings of an action in a pool. -/
def Booking.isIn (pool : Pool) (action : Action) (b : Booking) : Bool :=
  b.pool = pool && b.action = action

/-- How many bookings of a journal that pass a test are recent. -/
def spent (journal : List Booking) (wall : ℚ) (test : Booking → Bool) : ℕ :=
  ((recent Booking.wall budgetWindowS wall journal).filter test).length

/-- The budgets of a journal hold in every window. -/
structure WithinBudgets (journal : List Booking) : Prop where
  ofProgram : ∀ program,
    Budgeted Booking.wall budgetWindowS (Booking.isOf program .restart) programBudget journal
  ofPool : ∀ pool,
    Budgeted Booking.wall budgetWindowS (Booking.isIn pool .restart) poolBudget journal
  ofStarts : ∀ program,
    Budgeted Booking.wall budgetWindowS (Booking.isOf program .start) fatalProgramBudget journal

/-- The budgets leave room for an action on a program. -/
def HasRoom (journal : List Booking) (wall : ℚ) (program : String) (pool : Pool) : Action → Prop
  | .restart => spent journal wall (Booking.isOf program .restart) < programBudget ∧
      spent journal wall (Booking.isIn pool .restart) < poolBudget
  | .start => spent journal wall (Booking.isOf program .start) < fatalProgramBudget

/-- The budgets leave room for a booking. -/
def Booking.Fits (journal : List Booking) (b : Booking) : Prop :=
  HasRoom journal b.wall b.program b.pool b.action

/-- The budgets leave room for bookings that are made one after the other. -/
def FitAll : List Booking → List Booking → Prop
  | _, [] => True
  | journal, b :: rest => b.Fits journal ∧ FitAll (journal ++ [b]) rest

theorem withinBudgets_nil : WithinBudgets [] :=
  ⟨fun _ => budgeted_nil, fun _ => budgeted_nil, fun _ => budgeted_nil⟩

section

variable {journal : List Booking} {b : Booking} {test : Booking → Bool} {limit : ℕ}

/-- A booking that a budget counts needs room in it. -/
theorem budgeted_append (h : Budgeted Booking.wall budgetWindowS test limit journal)
    (hroom : test b = true → spent journal b.wall test < limit) :
    Budgeted Booking.wall budgetWindowS test limit (journal ++ [b]) := by
  by_cases htest : test b = true
  · exact h.append (hroom htest)
  · rw [Bool.not_eq_true] at htest
    exact h.append_of_not htest

theorem Booking.isOf_iff {program : String} {action : Action} :
    b.isOf program action = true ↔ b.program = program ∧ b.action = action := by
  simp [Booking.isOf]

theorem Booking.isIn_iff {pool : Pool} {action : Action} :
    b.isIn pool action = true ↔ b.pool = pool ∧ b.action = action := by
  simp [Booking.isIn]

theorem WithinBudgets.append (h : WithinBudgets journal) (hfits : b.Fits journal) :
    WithinBudgets (journal ++ [b]) := by
  unfold Booking.Fits at hfits
  refine ⟨fun program => ?_, fun pool => ?_, fun program => ?_⟩
  · refine budgeted_append (h.ofProgram program) fun htest => ?_
    obtain ⟨rfl, haction⟩ := Booking.isOf_iff.1 htest
    rw [haction] at hfits
    exact hfits.1
  · refine budgeted_append (h.ofPool pool) fun htest => ?_
    obtain ⟨rfl, haction⟩ := Booking.isIn_iff.1 htest
    rw [haction] at hfits
    exact hfits.2
  · refine budgeted_append (h.ofStarts program) fun htest => ?_
    obtain ⟨rfl, haction⟩ := Booking.isOf_iff.1 htest
    rw [haction] at hfits
    exact hfits

theorem WithinBudgets.append_all {new : List Booking} (h : WithinBudgets journal)
    (hfits : FitAll journal new) : WithinBudgets (journal ++ new) := by
  induction new generalizing journal with
  | nil => simpa using h
  | cons b rest ih =>
      have hrest := ih (h.append hfits.1) hfits.2
      rwa [List.append_assoc, List.singleton_append] at hrest

/-- A booking that does not count leaves the same room. -/
theorem spent_append_of_not {wall : ℚ} (htest : test b = false) :
    spent (journal ++ [b]) wall test = spent journal wall test := by
  rw [spent, spent, recent_append, List.filter_append, List.length_append]
  have hnone : (recent Booking.wall budgetWindowS wall [b]).filter test = [] := by
    rw [List.filter_eq_nil_iff]
    intro other hother
    have hmem := List.mem_of_mem_filter hother
    rw [List.mem_singleton] at hmem
    rw [hmem, htest]
    exact Bool.false_ne_true
  rw [hnone, List.length_nil, Nat.add_zero]

theorem spent_congr {journal' : List Booking} {wall : ℚ}
    (h : recent Booking.wall budgetWindowS wall journal =
      recent Booking.wall budgetWindowS wall journal') :
    spent journal wall test = spent journal' wall test := by
  rw [spent, spent, h]

theorem HasRoom.congr {journal' : List Booking} {wall : ℚ} {program : String} {pool : Pool}
    {action : Action} (h : recent Booking.wall budgetWindowS wall journal =
      recent Booking.wall budgetWindowS wall journal')
    (hroom : HasRoom journal wall program pool action) :
    HasRoom journal' wall program pool action := by
  cases action with
  | restart => exact ⟨spent_congr h ▸ hroom.1, spent_congr h ▸ hroom.2⟩
  | start => exact lt_of_eq_of_lt (spent_congr h).symm hroom

end

/-! ## The ledger -/

namespace Ledger

theorem isRecent_eq (wall past : ℚ) :
    isRecent id wall past = (wall - past < budgetWindowS : Bool) := by
  rw [isRecent, age, id]
  congr 1
  rw [eq_iff_iff, max_lt_iff]
  exact and_iff_right (by decide +kernel)

/-- A pruned ledger has what is recent. -/
theorem prune_bookings (l : Ledger) (wall : ℚ) (shadow : Bool) :
    (l.prune wall).bookings shadow = recent Booking.wall budgetWindowS wall (l.bookings shadow) := by
  cases shadow <;>
    simp only [bookings, prune, recent, isRecent_eq, Bool.false_eq_true, if_false, if_true]

theorem bookings_book (l : Ledger) (b : Booking) (shadow shadow' : Bool) :
    (l.book b shadow').bookings shadow =
      l.bookings shadow ++ if shadow = shadow' then [b] else [] := by
  cases shadow <;> cases shadow' <;> simp [book, bookings]

/-- A limit that is used up has a booking that has to leave. -/
theorem lastToLeave_eq_none_iff {entries : List Booking} {limit : ℕ} (hlimit : 0 < limit) :
    lastToLeave entries limit = none ↔ entries.length < limit := by
  unfold lastToLeave
  split
  case isTrue hfull =>
    dsimp only
    rw [List.getElem?_eq_none_iff, List.length_insertionSort, List.length_map]
    omega
  case isFalse hroom => exact iff_of_true rfl (not_le.1 hroom)

theorem length_lt_of_limitFreeAt {round : ℚ → ℚ} {entries : List Booking} {limit : ℕ}
    (hlimit : 0 < limit) (h : limitFreeAt round entries limit = none) : entries.length < limit := by
  rw [limitFreeAt, Option.map_eq_none_iff] at h
  exact (lastToLeave_eq_none_iff hlimit).1 h

theorem laterTime_eq_none {time other : Option ℚ} (h : laterTime time other = none) :
    time = none ∧ other = none := by
  cases time <;> cases other <;> simp [laterTime] at h ⊢

theorem filter_isRecent (entries : List Booking) (wall : ℚ) (action : Action)
    (test : Booking → Bool) :
    ((entries.filter fun b => b.action = action && isRecent id wall b.wall).filter test) =
      ((recent Booking.wall budgetWindowS wall entries).filter fun b =>
        test b && b.action = action) := by
  rw [recent, List.filter_filter, List.filter_filter]
  refine List.filter_congr fun b _ => ?_
  rw [isRecent_eq, ← Bool.and_assoc]

/-- An action that the ledger does not hold has room. -/
theorem hasRoom_of_freeAt {l : Ledger} {program : String} {pool : Pool} {action : Action}
    {shadow : Bool} {wall : ℚ} (h : l.freeAt id program pool action shadow wall = none) :
    (∀ stop, l.exhaustedUntil = some stop → stop ≤ wall) ∧
      HasRoom (l.bookings shadow) wall program pool action := by
  unfold freeAt at h
  cases hfilter : l.exhaustedUntil.filter fun stop => wall < stop with
  | some stop =>
      rw [hfilter] at h
      cases h
  | none =>
      rw [hfilter] at h
      constructor
      · intro stop hstop
        rw [hstop, Option.filter_some] at hfilter
        simpa using hfilter
      · cases action with
        | restart =>
            obtain ⟨hprogram, hpool⟩ := laterTime_eq_none h
            rw [filter_isRecent] at hprogram hpool
            exact ⟨length_lt_of_limitFreeAt (by decide) hprogram,
              length_lt_of_limitFreeAt (by decide) hpool⟩
        | start =>
            simp only [filter_isRecent] at h
            exact length_lt_of_limitFreeAt (by decide) h

theorem bookings_foldl_book {α : Type} (booking : α → Booking) (shadow shadow' : Bool)
    (batch : List α) (l : Ledger) :
    (batch.foldl (fun l p => l.book (booking p) shadow') l).bookings shadow =
      l.bookings shadow ++ if shadow = shadow' then batch.map booking else [] := by
  induction batch generalizing l with
  | nil => simp
  | cons p rest ih =>
      rw [List.foldl_cons, ih, bookings_book, List.append_assoc]
      by_cases hsame : shadow = shadow'
      · simp [hsame]
      · simp [hsame]

end Ledger

/-! ## What a cycle books -/

theorem Observation.managed_names_nodup (o : Observation) : (o.managed.map Program.name).Nodup := by
  refine List.Nodup.sublist ?_ o.names_distinct
  unfold Observation.managed
  induction o.programs with
  | nil => exact List.Sublist.refl _
  | cons facts rest ih =>
      rw [List.map_cons]
      cases hmanaged : facts.managed? with
      | none =>
          rw [List.filterMap_cons_none hmanaged]
          exact ih.cons _
      | some p =>
          have hname : p.name = facts.name := by
            unfold ProgramFacts.managed? at hmanaged
            split at hmanaged
            · rw [Option.some.injEq] at hmanaged
              rw [← hmanaged]
            · cases hmanaged
          rw [List.filterMap_cons_some hmanaged, List.map_cons, hname]
          exact ih.cons_cons _

namespace PolicyState

variable {s : PolicyState} {o : Observation} {mono wall : ℚ}

theorem startBatch_names_nodup (shadow : Bool) :
    ((s.startBatch o mono wall shadow).map Program.name).Nodup := by
  have hfatal : ((fatalPrograms o).map Program.name).Nodup := by
    refine ((List.perm_insertionSort _ _).map Program.name).nodup_iff.2 ?_
    exact o.managed_names_nodup.sublist (List.Sublist.map _ List.filter_sublist)
  unfold startBatch
  split
  · exact List.nodup_nil
  · refine hfatal.sublist (List.Sublist.map _ (List.filter_sublist.trans ?_))
    exact List.filter_sublist

theorem startLedger_bookings (shadow : Bool) :
    (s.startLedger o mono wall).bookings shadow = s.ledger.bookings shadow ++
      (s.startBatch o mono wall shadow).map (s.startBooking wall shadow) := by
  rw [startLedger, List.foldl_cons, List.foldl_cons, List.foldl_nil, Ledger.bookings_foldl_book,
    Ledger.bookings_foldl_book]
  cases shadow with
  | false => simp
  | true => simp

/-- Each program of a batch is started once, so there is room for all if there is for each. -/
theorem fitAll_startBookings {batch : List Program} {shadow : Bool} {journal : List Booking}
    (hnames : (batch.map Program.name).Nodup)
    (hroom : ∀ p ∈ batch, HasRoom journal wall p.name p.klass.pool .start) :
    FitAll journal (batch.map (s.startBooking wall shadow)) := by
  induction batch generalizing journal with
  | nil => trivial
  | cons p rest ih =>
      rw [List.map_cons, List.nodup_cons] at hnames
      refine ⟨hroom p List.mem_cons_self, ih hnames.2 fun other hother => ?_⟩
      have hnot : (s.startBooking wall shadow p).isOf other.name .start = false := by
        rw [← Bool.not_eq_true, Booking.isOf_iff]
        rintro ⟨hname, -⟩
        exact hnames.1 (List.mem_map.2 ⟨other, hother, hname.symm⟩)
      have hbefore := hroom other (List.mem_cons_of_mem _ hother)
      unfold HasRoom at hbefore ⊢
      rw [spent_append_of_not hnot]
      exact hbefore

theorem hasRoom_of_not_budgetHolds {p : Program} {action : Action} {shadow : Bool}
    (h : s.budgetHolds wall p action shadow = false) :
    (∀ stop, s.ledger.exhaustedUntil = some stop → stop ≤ wall) ∧
      HasRoom (s.ledger.bookings shadow) wall p.name p.klass.pool action := by
  rw [budgetHolds, Option.isSome_eq_false_iff, Option.isNone_iff_eq_none] at h
  exact Ledger.hasRoom_of_freeAt h

end PolicyState

/-- Bookings that a cycle may make at a time, for which a ledger has room. -/
structure Affordable (l : Ledger) (shadow : Bool) (wall : ℚ) (new : List Booking) : Prop where
  now : ∀ b ∈ new, b.wall = wall
  notExhausted : new ≠ [] → ∀ stop, l.exhaustedUntil = some stop → stop ≤ wall
  fits : FitAll (l.bookings shadow) new

theorem affordable_nil (l : Ledger) (shadow : Bool) (wall : ℚ) : Affordable l shadow wall [] :=
  ⟨by simp, fun hne => absurd rfl hne, trivial⟩

section Decide

variable {s : PolicyState} {o : Observation} {mono wall : ℚ}

theorem affordable_starts (shadow : Bool) : Affordable s.ledger shadow wall
    ((s.startBatch o mono wall shadow).map (s.startBooking wall shadow)) := by
  have hroom : ∀ p ∈ s.startBatch o mono wall shadow,
      (∀ stop, s.ledger.exhaustedUntil = some stop → stop ≤ wall) ∧
        HasRoom (s.ledger.bookings shadow) wall p.name p.klass.pool .start := by
    intro p hp
    obtain ⟨-, -, -, hholds⟩ := PolicyState.mem_startBatch hp
    obtain ⟨-, -, hbudget, -⟩ := PolicyState.of_startHolds_eq_nil hholds
    exact PolicyState.hasRoom_of_not_budgetHolds hbudget
  refine ⟨?_, ?_, ?_⟩
  · intro b hb
    obtain ⟨p, -, rfl⟩ := List.mem_map.1 hb
    rfl
  · intro hne
    obtain ⟨b, hb⟩ := List.exists_mem_of_ne_nil _ hne
    obtain ⟨p, hp, -⟩ := List.mem_map.1 hb
    exact (hroom p hp).1
  · exact PolicyState.fitAll_startBookings (PolicyState.startBatch_names_nodup shadow)
      fun p hp => (hroom p hp).2

/-- A cycle books what it can afford. -/
theorem decide_bookings (shadow : Bool) : ∃ new,
    (decide s o mono wall).1.ledger.bookings shadow =
        (s.tracked o mono wall).ledger.bookings shadow ++ new ∧
      Affordable (s.tracked o mono wall).ledger shadow wall new := by
  by_cases hstarved : o.starved = true
  · rw [decide_of_starved hstarved]
    exact ⟨[], by simp, affordable_nil _ _ _⟩
  · rw [Bool.not_eq_true] at hstarved
    rcases @decide_cases s o mono wall hstarved with
      ⟨decision, rest, -, hdecide⟩ | ⟨-, hdecide | ⟨trip, -, hfree, hdecide⟩⟩
    · rw [hdecide]
      exact ⟨_, PolicyState.startLedger_bookings shadow, affordable_starts shadow⟩
    · rw [hdecide]
      exact ⟨[], by simp, affordable_nil _ _ _⟩
    · rw [hdecide]
      refine ⟨_, Ledger.bookings_book _ _ _ _, ?_⟩
      by_cases hshadow :
          shadow = (s.tracked o mono wall).shadowFor trip.program.klass
      · rw [if_pos hshadow]
        obtain ⟨-, -, -, -, hbudget, -⟩ := PolicyState.of_holds_eq_nil hfree
        obtain ⟨hopen, hroom⟩ := PolicyState.hasRoom_of_not_budgetHolds hbudget
        rw [← hshadow] at hroom
        refine ⟨?_, fun _ => hopen, hroom, trivial⟩
        intro b hb
        rw [List.mem_singleton] at hb
        rw [hb]
      · rw [if_neg hshadow]
        exact affordable_nil _ _ _

/-- What a cycle books comes behind what the ledger has kept, and the ledger has room for it. -/
theorem newBookings_spec (shadow : Bool) :
    (decide s o mono wall).1.ledger.bookings shadow =
        (s.tracked o mono wall).ledger.bookings shadow ++ s.newBookings o mono wall shadow ∧
      Affordable (s.tracked o mono wall).ledger shadow wall (s.newBookings o mono wall shadow) := by
  obtain ⟨new, hbookings, hnew⟩ := @decide_bookings s o mono wall shadow
  have hdrop : s.newBookings o mono wall shadow = new := by
    rw [PolicyState.newBookings, hbookings, List.drop_left]
  rw [hdrop]
  exact ⟨hbookings, hnew⟩

theorem decide_exhaustedUntil :
    (decide s o mono wall).1.ledger.exhaustedUntil =
      (s.tracked o mono wall).ledger.exhaustedUntil := by
  refine decide_frame (fun t => t.ledger.exhaustedUntil) (fun t => ?_) fun t trip shadow => ?_
  · exact PolicyState.startLedger_eq Ledger.exhaustedUntil Ledger.book_exhaustedUntil t o mono wall
  · exact Ledger.book_exhaustedUntil _ _ _

end Decide

/-! ## What the ledger knows -/

/-- From a time on a ledger knows what is recent in a journal, unless it counts as exhausted. -/
structure Ledger.Accounts (l : Ledger) (shadow : Bool) (journal : List Booking) (wall : ℚ) :
    Prop where
  past : ∀ b ∈ journal, b.wall ≤ wall
  kept : ∀ b ∈ l.bookings shadow, b.wall ≤ wall
  agrees : ∀ now, wall ≤ now → (∀ stop, l.exhaustedUntil = some stop → stop ≤ now) →
    recent Booking.wall budgetWindowS now (l.bookings shadow) =
      recent Booking.wall budgetWindowS now journal

namespace Ledger.Accounts

variable {l l' : Ledger} {shadow : Bool} {journal : List Booking} {wall wall' : ℚ}

theorem congr (h : l.Accounts shadow journal wall)
    (hbookings : l'.bookings shadow = l.bookings shadow)
    (hexhausted : l'.exhaustedUntil = l.exhaustedUntil) : l'.Accounts shadow journal wall := by
  constructor
  · exact h.past
  · rw [hbookings]
    exact h.kept
  · rw [hbookings, hexhausted]
    exact h.agrees

theorem prune (h : l.Accounts shadow journal wall) (hwall : wall ≤ wall') :
    (l.prune wall').Accounts shadow journal wall' := by
  refine ⟨fun b hb => (h.past b hb).trans hwall, ?_, ?_⟩
  · intro b hb
    rw [prune_bookings] at hb
    exact (h.kept b (List.mem_of_mem_filter hb)).trans hwall
  · intro now hnow hstop
    rw [prune_bookings, recent_recent hnow]
    refine h.agrees now (hwall.trans hnow) fun stop hsome => ?_
    -- The end that pruning drops has passed.
    by_cases hlater : wall' < stop
    · refine hstop stop ?_
      rw [Ledger.prune, hsome, Option.filter_some]
      simp [hlater]
    · exact (not_lt.1 hlater).trans hnow

/-- What is booked now goes into both. -/
theorem append {new : List Booking} (h : l.Accounts shadow journal wall)
    (hnow : ∀ b ∈ new, b.wall = wall) (hbookings : l'.bookings shadow = l.bookings shadow ++ new)
    (hexhausted : l'.exhaustedUntil = l.exhaustedUntil) :
    l'.Accounts shadow (journal ++ new) wall := by
  constructor
  · intro b hb
    rcases List.mem_append.1 hb with hb | hb
    · exact h.past b hb
    · exact (hnow b hb).le
  · intro b hb
    rw [hbookings] at hb
    rcases List.mem_append.1 hb with hb | hb
    · exact h.kept b hb
    · exact (hnow b hb).le
  · intro now hwall hstop
    rw [hexhausted] at hstop
    rw [hbookings, recent_append, recent_append, h.agrees now hwall hstop]

/-- Nothing of the past is recent after an hour. -/
theorem recent_eq_nil_of_hour {now : ℚ} (h : ∀ b ∈ journal, b.wall ≤ wall)
    (hnow : wall + corruptLedgerS ≤ now) :
    recent Booking.wall budgetWindowS now journal = [] :=
  recent_eq_nil h hnow

/-- Exhausted budgets account for whatever has happened. -/
theorem of_exhausted (hpast : ∀ b ∈ journal, b.wall ≤ wall) :
    (Ledger.exhausted wall).Accounts shadow journal wall := by
  have hnone : (Ledger.exhausted wall).bookings shadow = [] := by cases shadow <;> rfl
  refine ⟨hpast, by simp [hnone], ?_⟩
  intro now _ hstop
  rw [hnone, recent_eq_nil_of_hour hpast (hstop _ rfl)]
  rfl

theorem broughtBack_bookings (h : ∀ b ∈ l.bookings shadow, b.wall ≤ wall) :
    (l.broughtBack wall).bookings shadow = l.bookings shadow := by
  have hmap : (l.broughtBack wall).bookings shadow =
      (l.bookings shadow).map fun b => { b with wall := min b.wall wall } := by
    cases shadow <;> rfl
  rw [hmap, List.map_congr_left (g := id), List.map_id]
  intro b hb
  rw [min_eq_left (h b hb)]
  rfl

theorem broughtBack (h : l.Accounts shadow journal wall) (hwall : wall ≤ wall') :
    (l.broughtBack wall').Accounts shadow journal wall' := by
  have hpast : ∀ b ∈ journal, b.wall ≤ wall' := fun b hb => (h.past b hb).trans hwall
  have hkept : ∀ b ∈ l.bookings shadow, b.wall ≤ wall' := fun b hb => (h.kept b hb).trans hwall
  have hsame := broughtBack_bookings hkept
  refine ⟨hpast, by rwa [hsame], ?_⟩
  intro now hnow hstop
  rw [hsame]
  by_cases hhour : wall' + corruptLedgerS ≤ now
  · rw [recent_eq_nil_of_hour hpast hhour, recent_eq_nil_of_hour hkept hhour]
  · refine h.agrees now (hwall.trans hnow) fun stop hsome => ?_
    have hmin := hstop (min stop (wall' + corruptLedgerS)) (by simp [Ledger.broughtBack, hsome])
    exact (min_le_iff.1 hmin).resolve_right hhour

theorem load (h : l.Accounts shadow journal wall) (hwall : wall ≤ wall') (readable : Bool) :
    (Ledger.load (if readable then some l.file.toValue else none) wall').Accounts shadow journal
      wall' := by
  rcases Ledger.load_cases l.file readable wall' with hload | hload
  · rw [hload]
    exact h.broughtBack hwall
  · rw [hload]
    exact of_exhausted fun b hb => (h.past b hb).trans hwall

end Ledger.Accounts

namespace PolicyState

variable {s : PolicyState} {o : Observation} {mono wall : ℚ}

/-- The gate only shows in the red intervals. -/
theorem trackGate_bookings (shadow : Bool) :
    (s.trackGate o mono wall).ledger.bookings shadow = s.ledger.bookings shadow ∧
      (s.trackGate o mono wall).ledger.exhaustedUntil = s.ledger.exhaustedUntil := by
  unfold trackGate
  split
  · exact ⟨rfl, rfl⟩
  · split
    · dsimp only
      split <;> exact ⟨rfl, rfl⟩
    · split
      · unfold closeRed
        split <;> exact ⟨rfl, rfl⟩
      · split <;> exact ⟨rfl, rfl⟩

theorem accounts_tracked {shadow : Bool} {journal : List Booking} {wall' : ℚ}
    (h : s.ledger.Accounts shadow journal wall) (hwall : wall ≤ wall') :
    (s.tracked o mono wall').ledger.Accounts shadow journal wall' := by
  have hgate := @trackGate_bookings (s.started mono wall') o mono wall' shadow
  refine (h.prune hwall).congr ?_ ?_
  · rw [tracked_ledger, hgate.1]
    rfl
  · rw [tracked_ledger, hgate.2]
    rfl

end PolicyState

/-! ## The run -/

namespace Run

/-- The clock does not go back. -/
def Forward (r : Run) : Label → Prop
  | .cycle _ _ wall => r.wall ≤ wall
  | .reload _ wall => r.wall ≤ wall

instance (r : Run) (label : Label) : Decidable (r.Forward label) := by
  cases label <;> exact inferInstanceAs (Decidable (_ ≤ _))

/-- The budgets of a run hold, and its ledger accounts for what it has booked. -/
structure Accounted (r : Run) (shadow : Bool) : Prop where
  accounts : r.state.ledger.Accounts shadow (r.booked shadow) r.wall
  within : WithinBudgets (r.booked shadow)

variable {r t : Run} {shadow : Bool} {o : Observation} {mono wall : ℚ}

/-- What a cycle can afford fits behind all that was ever booked. -/
theorem FitAll.congr {journal journal' new : List Booking} {wall : ℚ}
    (hnow : ∀ b ∈ new, b.wall = wall)
    (h : recent Booking.wall budgetWindowS wall journal =
      recent Booking.wall budgetWindowS wall journal') (hfits : FitAll journal new) :
    FitAll journal' new := by
  induction new generalizing journal journal' with
  | nil => trivial
  | cons b rest ih =>
      have hb : b.wall = wall := hnow b List.mem_cons_self
      refine ⟨?_, ih (fun c hc => hnow c (List.mem_cons_of_mem _ hc)) ?_ hfits.2⟩
      · have hroom := hfits.1
        unfold Booking.Fits at hroom ⊢
        rw [hb] at hroom ⊢
        exact hroom.congr h
      · rw [recent_append, recent_append, h]

theorem Accounted.cycle (h : r.Accounted shadow) (hwall : r.wall ≤ wall)
    (hstep : r.step (.cycle o mono wall) = some t) : t.Accounted shadow := by
  rw [step, Option.some.injEq] at hstep
  subst hstep
  have htracked := @PolicyState.accounts_tracked _ o mono _ _ _ _ h.accounts hwall
  obtain ⟨hbookings, hnew⟩ := @newBookings_spec r.state o mono wall shadow
  constructor
  · exact htracked.append hnew.now hbookings decide_exhaustedUntil
  · dsimp only
    generalize r.state.newBookings o mono wall shadow = new at hnew
    cases new with
    | nil => simpa using h.within
    | cons b rest =>
        have hagrees := htracked.agrees wall le_rfl (hnew.notExhausted (List.cons_ne_nil _ _))
        exact h.within.append_all (FitAll.congr hnew.now hagrees hnew.fits)

theorem accounted_of_reachable {mode : Mode} {restartClasses : List Klass}
    (h : (machine mode restartClasses).ReachableVia Forward r) (shadow : Bool) :
    r.Accounted shadow := by
  refine Machine.ReachableVia.invariant (I := fun r => r.Accounted shadow) ?_ ?_ h
  · rintro start ⟨hstate, -, hbooked⟩
    have hnone : start.state.ledger.bookings shadow = [] := by
      rw [hstate]
      cases shadow <;> rfl
    constructor
    · rw [hbooked]
      exact ⟨by simp, by simp [hnone], fun now _ _ => by rw [hnone]⟩
    · rw [hbooked]
      exact withinBudgets_nil
  · rintro r label t haccounted hforward hstep
    cases label with
    | cycle o mono wall => exact haccounted.cycle hforward hstep
    | reload readable wall =>
        change r.step (.reload readable wall) = some t at hstep
        rw [step, Option.some.injEq] at hstep
        subst hstep
        exact ⟨haccounted.accounts.load hforward readable, haccounted.within⟩

end Run

/-- The budgets that an action uses have room for it. -/
def Decision.HasRoom (d : Decision) (o : Observation) (journal : List Booking) (wall : ℚ) : Prop :=
  match d with
  | .restart program _ _ _ => ∃ p ∈ o.running, p.name = program ∧
      Watchdog.HasRoom journal wall p.name p.klass.pool .restart
  | .start programs _ _ => ∀ program ∈ programs, ∃ p ∈ o.managed, p.name = program ∧
      Watchdog.HasRoom journal wall p.name p.klass.pool .start

namespace PolicyState

variable {s : PolicyState} {o : Observation} {mono wall : ℚ}

/-- R4 judges the workers that run. -/
theorem of_mem_workerTrips {trip : Trip} (h : trip ∈ workerTrips o wall) :
    trip.program ∈ o.running ∧ trip.rule = .r4 := by
  unfold workerTrips at h
  split at h
  · cases h
  · simp only [List.mem_ite_nil_left] at h
    obtain ⟨p, hp, hsome⟩ := List.mem_filterMap.1 h.2
    split at hsome
    · split at hsome
      · split at hsome
        · rw [Option.some.injEq] at hsome
          rw [← hsome]
          exact ⟨hp, rfl⟩
        · cases hsome
      · cases hsome
    · cases hsome

/-- R1 and R2 judge the programs that run, miss now and have missed often. -/
theorem of_mem_livenessTrips {trip : Trip} (h : trip ∈ s.livenessTrips o) :
    trip.program ∈ o.running ∧ missesToTrip ≤ s.missesOf trip.program.name ∧
      o.missedNow trip.program = true := by
  obtain ⟨p, hp, hsome⟩ := List.mem_filterMap.1 h
  split at hsome
  · split at hsome
    · rename_i htrips
      rw [Option.some.injEq] at hsome
      rw [← hsome]
      exact ⟨hp, htrips⟩
    · cases hsome
  · cases hsome

/-- The rules judge the programs that run. -/
theorem running_of_mem_trips {trip : Trip} (h : trip ∈ s.trips o mono wall) :
    trip.program ∈ o.running := by
  rw [trips, List.mem_append, List.mem_append] at h
  rcases h with (h | h) | h
  · exact (of_mem_livenessTrips h).1
  · obtain ⟨p, hp, rfl⟩ := List.mem_map.1 h
    exact List.mem_of_mem_filter hp
  · exact (of_mem_workerTrips h).1

theorem managed_of_mem_startBatch {p : Program} {shadow : Bool}
    (h : p ∈ s.startBatch o mono wall shadow) : p ∈ o.managed := by
  have hfatal := List.mem_of_mem_filter (mem_startBatch h).2.1
  rw [fatalPrograms, List.mem_insertionSort] at hfatal
  exact List.mem_of_mem_filter hfatal

end PolicyState

section Decide

variable {s : PolicyState} {o : Observation} {mono wall : ℚ} {d : Decision}

/-- The ledger leaves room for every action of a cycle. -/
theorem hasRoom_of_mem_decide (h : d ∈ (decide s o mono wall).2) :
    d.HasRoom o ((s.tracked o mono wall).ledger.bookings d.inShadow) wall ∧
      ∀ stop, (s.tracked o mono wall).ledger.exhaustedUntil = some stop → stop ≤ wall := by
  have hstarved := (of_mem_decide h).1
  rcases @decide_cases s o mono wall hstarved with
    ⟨decision, rest, hstarts, hdecide⟩ | ⟨-, hdecide | ⟨trip, hmem, hfree, hdecide⟩⟩
  · rw [hdecide, ← hstarts, PolicyState.startDecisions, List.mem_flatMap] at h
    obtain ⟨shadow, -, hd⟩ := h
    split at hd
    · cases hd
    · rename_i hbatch
      rw [List.mem_singleton] at hd
      subst hd
      have hroom : ∀ p ∈ (s.tracked o mono wall).startBatch o mono wall shadow,
          (∀ stop, (s.tracked o mono wall).ledger.exhaustedUntil = some stop → stop ≤ wall) ∧
            HasRoom ((s.tracked o mono wall).ledger.bookings shadow) wall p.name p.klass.pool
              .start := by
        intro p hp
        obtain ⟨-, -, -, hholds⟩ := PolicyState.mem_startBatch hp
        exact PolicyState.hasRoom_of_not_budgetHolds
          (PolicyState.of_startHolds_eq_nil hholds).2.2.1
      constructor
      · intro program hprogram
        obtain ⟨p, hp, rfl⟩ := List.mem_map.1 hprogram
        exact ⟨p, PolicyState.managed_of_mem_startBatch hp, rfl, (hroom p hp).2⟩
      · rw [List.isEmpty_iff] at hbatch
        obtain ⟨p, hp⟩ := List.exists_mem_of_ne_nil _ hbatch
        exact (hroom p hp).1
  · rw [hdecide] at h
    cases h
  · rw [hdecide, List.mem_singleton] at h
    subst h
    obtain ⟨-, -, -, -, hbudget, -⟩ := PolicyState.of_holds_eq_nil hfree
    obtain ⟨hopen, hroom⟩ := PolicyState.hasRoom_of_not_budgetHolds hbudget
    exact ⟨⟨trip.program, PolicyState.running_of_mem_trips hmem, rfl, hroom⟩, hopen⟩

theorem Decision.HasRoom.congr {journal journal' : List Booking}
    (hsame : recent Booking.wall budgetWindowS wall journal =
      recent Booking.wall budgetWindowS wall journal') (h : d.HasRoom o journal wall) :
    d.HasRoom o journal' wall := by
  cases d with
  | restart program rule would shadow =>
      obtain ⟨p, hp, hname, hroom⟩ := h
      exact ⟨p, hp, hname, hroom.congr hsame⟩
  | start programs would shadow =>
      intro program hprogram
      obtain ⟨p, hp, hname, hroom⟩ := h program hprogram
      exact ⟨p, hp, hname, hroom.congr hsame⟩

end Decide

/-- In every window the bookings of a run stay within the budgets, and no action is decided on
while a budget that it uses is exhausted. -/
theorem budgets_hold {mode : Mode} {restartClasses : List Klass} {r : Run}
    (h : (machine mode restartClasses).ReachableVia Run.Forward r) :
    (∀ shadow, WithinBudgets (r.booked shadow)) ∧
      ∀ (o : Observation) (mono wall : ℚ), r.wall ≤ wall →
        ∀ d ∈ (decide r.state o mono wall).2, d.HasRoom o (r.booked d.inShadow) wall ∧
          ∀ stop, r.state.ledger.exhaustedUntil = some stop → stop ≤ wall := by
  refine ⟨fun shadow => (Run.accounted_of_reachable h shadow).within, ?_⟩
  intro o mono wall hwall d hd
  obtain ⟨hroom, hopen⟩ := hasRoom_of_mem_decide hd
  have haccounts := (Run.accounted_of_reachable h d.inShadow).accounts
  have htracked := @PolicyState.accounts_tracked _ o mono _ _ _ _ haccounts hwall
  refine ⟨hroom.congr (htracked.agrees wall le_rfl hopen), fun stop hstop => ?_⟩
  by_contra hlater
  rw [not_le] at hlater
  have hkept : (r.state.tracked o mono wall).ledger.exhaustedUntil = some stop := by
    rw [PolicyState.tracked_ledger, (PolicyState.trackGate_bookings d.inShadow).2,
      PolicyState.started, Ledger.prune, hstop, Option.filter_some]
    simp [hlater]
  exact absurd (hopen stop hkept) (not_le.2 hlater)

/-- An evaluation service that never answers, with a restart of the watchdog in between. -/
def neverAnswers : List Label :=
  ([0, 30, 60, 90, 120, 150, 180, 210, 240].map fun mono =>
      smallCycle mono (smallSystem 0 (.green []) false)) ++
    .reload true 1270 ::
    [300, 330, 360, 390, 420].map fun mono => smallCycle mono (smallSystem 0 (.green []) false)

def twiceRestarted : Run :=
  ((machine .enforce [.core]).execVia Run.Forward (newRun .enforce [.core]) neverAnswers).get
    (by decide +kernel)

theorem budgets_hold_never_answers :
    (twiceRestarted.booked false).map (fun b => (b.program, b.action, b.wall)) =
        [("es", .restart, 1120), ("es", .restart, 1240)] ∧
      5 ≤ twiceRestarted.state.missesOf "es" ∧ WithinBudgets (twiceRestarted.booked false) := by
  have hreach : (machine .enforce [.core]).ReachableVia Run.Forward twiceRestarted :=
    ⟨_, init_newRun _ _, Machine.path_of_execVia (Option.some_get _).symm⟩
  exact ⟨by decide +kernel, by decide +kernel, (budgets_hold hreach).1 false⟩

end Watchdog
end ContestManagement
