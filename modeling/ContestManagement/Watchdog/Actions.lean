import ContestManagement.Watchdog.Runs

/-!
# At most one action in a cycle, and none under a hold

`GateHistory` reads from the cycles of a run what the watchdog knows of the gate: its last colour,
and when it last turned green.  A cycle in which the watchdog itself was starved tells nothing,
unless PostgreSQL has answered that it is not available.
-/

namespace ContestManagement
namespace Watchdog

open Lib

/-! ## What the bookkeeping leaves alone -/

namespace PolicyState

variable {s : PolicyState} {o : Observation} {mono wall : ℚ}

/-- The state of a cycle before the gate is looked at. -/
def started (s : PolicyState) (mono wall : ℚ) : PolicyState :=
  { s with startedMono := some (s.startedMono.getD mono), ledger := s.ledger.prune wall }

theorem tracked_eq : s.tracked o mono wall =
    (((((s.started mono wall).trackGate o mono wall).trackPause o).trackPrograms o).recordHolderCpu o
      mono) := rfl

theorem trackPause_ledger : (s.trackPause o).ledger = s.ledger := by
  unfold trackPause
  split <;> rfl

theorem trackPause_greenSinceMono : (s.trackPause o).greenSinceMono = s.greenSinceMono := by
  unfold trackPause
  split <;> rfl

theorem trackPause_startedMono : (s.trackPause o).startedMono = s.startedMono := by
  unfold trackPause
  split <;> rfl

theorem trackPause_mode : (s.trackPause o).mode = s.mode ∧
    (s.trackPause o).restartClasses = s.restartClasses := by
  unfold trackPause
  split <;> exact ⟨rfl, rfl⟩

theorem tracked_ledger :
    (s.tracked o mono wall).ledger = ((s.started mono wall).trackGate o mono wall).ledger := by
  rw [tracked_eq]
  exact trackPause_ledger

theorem tracked_greenSinceMono : (s.tracked o mono wall).greenSinceMono =
    ((s.started mono wall).trackGate o mono wall).greenSinceMono := by
  rw [tracked_eq]
  exact trackPause_greenSinceMono

theorem closeRed_startedMono : (s.closeRed wall).startedMono = s.startedMono := by
  unfold closeRed
  split <;> rfl

theorem trackGate_startedMono : (s.trackGate o mono wall).startedMono = s.startedMono := by
  unfold trackGate
  split
  · rfl
  · split
    · rfl
    · split
      · exact closeRed_startedMono
      · split <;> rfl

theorem tracked_startedMono :
    (s.tracked o mono wall).startedMono = some (s.startedMono.getD mono) := by
  rw [tracked_eq]
  exact trackPause_startedMono.trans trackGate_startedMono

/-! ## The red intervals -/

/-- Only the last red interval may be open. -/
def OnlyLastOpen (red : List (ℚ × Option ℚ)) : Prop :=
  red.Pairwise fun a _ => a.2.isSome

theorem redOpen_iff (h : OnlyLastOpen s.ledger.red) :
    s.redOpen = true ↔ ∃ start, (start, none) ∈ s.ledger.red := by
  unfold redOpen
  rcases List.eq_nil_or_concat s.ledger.red with hnil | ⟨before, last, hconcat⟩
  · simp [hnil]
  · rw [List.concat_eq_append] at hconcat
    rw [hconcat] at h ⊢
    rw [OnlyLastOpen, List.pairwise_append] at h
    rw [List.getLast?_concat]
    obtain ⟨start, stop⟩ := last
    cases stop with
    | none => simp
    | some stop =>
        simp only [Bool.false_eq_true, false_iff, not_exists, List.mem_append, List.mem_singleton,
          Prod.mk.injEq, reduceCtorEq, and_false, or_false]
        intro other hmem
        have hclosed := h.2.2 _ hmem _ (List.mem_singleton_self _)
        simp at hclosed

theorem OnlyLastOpen.prune {l : Ledger} (h : OnlyLastOpen l.red) (wall : ℚ) :
    OnlyLastOpen (l.prune wall).red :=
  List.Pairwise.filter _ h

theorem mem_prune_red {l : Ledger} {wall start : ℚ} :
    (start, none) ∈ (l.prune wall).red ↔ (start, none) ∈ l.red := by
  simp [Ledger.prune]

/-- Pruning does not close the red interval. -/
theorem started_redOpen (h : OnlyLastOpen s.ledger.red) :
    (s.started mono wall).redOpen = s.redOpen := by
  have hpruned : OnlyLastOpen (s.started mono wall).ledger.red := h.prune wall
  rw [Bool.eq_iff_iff, redOpen_iff hpruned, redOpen_iff h]
  exact exists_congr fun start => mem_prune_red

theorem closeRed_red (wall : ℚ) (h : s.redOpen = true) : ∃ before start stop,
    s.ledger.red = before ++ [(start, none)] ∧
      (s.closeRed wall).ledger.red = before ++ [(start, some stop)] := by
  unfold redOpen at h
  unfold closeRed
  rcases List.eq_nil_or_concat s.ledger.red with hnil | ⟨before, last, hconcat⟩
  · simp [hnil] at h
  · rw [List.concat_eq_append] at hconcat
    obtain ⟨start, stop⟩ := last
    rw [hconcat, List.getLast?_concat] at h ⊢
    cases stop with
    | some stop => simp at h
    | none =>
        refine ⟨before, start, wall, rfl, ?_⟩
        simp

end PolicyState

/-! ## The gate -/

/-- The last colour of the gate, true for green, and when it last turned green. -/
structure GateHistory where
  colour : Option Bool
  turnedGreen : Option ℚ

namespace GateHistory

/-- What one more cycle tells. -/
def next (g : GateHistory) (c : Cycle) : GateHistory :=
  if c.observation.gateCounts = false then g
  else
    { colour := some c.observation.gate.isGreen
      turnedGreen :=
        if c.observation.gate.isGreen ∧ g.colour = some false then some c.mono
        else g.turnedGreen }

/-- The history of the cycles of a run. -/
def ofCycles (cycles : List Cycle) : GateHistory := cycles.foldl next ⟨none, none⟩

theorem ofCycles_append (cycles : List Cycle) (c : Cycle) :
    ofCycles (cycles ++ [c]) = (ofCycles cycles).next c := by
  simp [ofCycles]

end GateHistory

/-- What the state of the policy knows of the gate. -/
structure PolicyState.KnowsGate (s : PolicyState) (g : GateHistory) : Prop where
  onlyLast : PolicyState.OnlyLastOpen s.ledger.red
  red : g.colour = some false → s.redOpen = true
  green : g.colour = some true → s.redOpen = false ∧ s.greenSinceMono.isSome ∧
    ∀ time, g.turnedGreen = some time → s.greenSinceMono = some time
  unknown : g.colour = none → g.turnedGreen = none

namespace PolicyState.KnowsGate

variable {s t : PolicyState} {g : GateHistory} {o : Observation} {mono wall : ℚ}

theorem congr (h : s.KnowsGate g) (hred : t.ledger.red = s.ledger.red)
    (hgreen : t.greenSinceMono = s.greenSinceMono) : t.KnowsGate g := by
  have hopen : t.redOpen = s.redOpen := by rw [redOpen, redOpen, hred]
  refine ⟨hred ▸ h.onlyLast, ?_, ?_, h.unknown⟩
  · rw [hopen]
    exact h.red
  · rw [hopen, hgreen]
    exact h.green

theorem started (h : s.KnowsGate g) : (s.started mono wall).KnowsGate g := by
  refine ⟨h.onlyLast.prune wall, ?_, ?_, h.unknown⟩
  · rw [started_redOpen h.onlyLast]
    exact h.red
  · rw [started_redOpen h.onlyLast]
    exact h.green

theorem trackGate (h : s.KnowsGate g) :
    (s.trackGate o mono wall).KnowsGate (g.next ⟨o, mono, wall⟩) := by
  unfold PolicyState.trackGate GateHistory.next
  dsimp only
  by_cases hcounts : o.gateCounts = false
  · rw [if_pos hcounts, if_pos hcounts]
    exact h
  · rw [if_neg hcounts, if_neg hcounts]
    by_cases hgreen : o.gate.isGreen = false
    · rw [if_pos hgreen]
      simp only [hgreen, Bool.false_eq_true, false_and, if_false]
      -- The gate is red: the last interval is open, or a new one is.
      by_cases hopen : s.redOpen = true
      · simp only [hopen, if_true]
        refine ⟨h.onlyLast, fun _ => hopen, by simp, by simp⟩
      · simp only [hopen, if_false, Bool.false_eq_true]
        have hclosed : ∀ interval ∈ s.ledger.red, interval.2.isSome := by
          rintro ⟨start, stop⟩ hmem
          cases stop with
          | some stop => rfl
          | none => exact absurd ((redOpen_iff h.onlyLast).2 ⟨start, hmem⟩) hopen
        refine ⟨?_, ?_, by simp, by simp⟩
        · refine List.pairwise_append.2 ⟨h.onlyLast, List.pairwise_singleton _ _, ?_⟩
          exact fun a ha b _ => hclosed a ha
        · intro _
          simp [redOpen]
    · rw [if_neg hgreen]
      rw [Bool.not_eq_false] at hgreen
      simp only [hgreen, true_and]
      by_cases hopen : s.redOpen = true
      · rw [if_pos hopen]
        obtain ⟨before, start, stop, hbefore, hafter⟩ := closeRed_red wall hopen
        have hlast := h.onlyLast
        rw [hbefore, OnlyLastOpen, List.pairwise_append] at hlast
        have hred : ({ (s.closeRed wall).clearWindows with
            greenSinceMono := some mono, greenCycles := 1 } : PolicyState).ledger.red =
            before ++ [(start, some stop)] := hafter
        refine ⟨?_, by simp, ?_, by simp⟩
        · rw [hred]
          exact List.pairwise_append.2 ⟨hlast.1, List.pairwise_singleton _ _,
            fun a ha b _ => hlast.2.2 a ha (start, none) (List.mem_singleton_self _)⟩
        · intro _
          refine ⟨?_, rfl, ?_⟩
          · rw [redOpen, hred]
            simp
          · intro time htime
            cases hcolour : g.colour with
            | none =>
                rw [hcolour] at htime
                simp only [reduceCtorEq, if_false] at htime
                rw [h.unknown hcolour] at htime
                cases htime
            | some colour =>
                cases colour with
                | true =>
                    rw [(h.green hcolour).1] at hopen
                    cases hopen
                | false =>
                    rw [hcolour] at htime
                    simp only [if_true] at htime
                    exact htime
      · rw [if_neg hopen]
        have hcolour : g.colour ≠ some false := fun hfalse => hopen (h.red hfalse)
        rw [Bool.not_eq_true] at hopen
        by_cases hfirst : s.greenSinceMono = none
        · rw [if_pos hfirst]
          refine ⟨h.onlyLast, by simp, ?_, by simp⟩
          intro _
          refine ⟨hopen, rfl, ?_⟩
          intro time htime
          rw [if_neg hcolour] at htime
          cases hknown : g.colour with
          | none =>
              rw [h.unknown hknown] at htime
              cases htime
          | some colour =>
              cases colour with
              | false => exact absurd hknown hcolour
              | true =>
                  have hsome := (h.green hknown).2.1
                  rw [hfirst] at hsome
                  cases hsome
        · rw [if_neg hfirst]
          refine ⟨h.onlyLast, by simp, ?_, by simp⟩
          intro _
          refine ⟨hopen, Option.isSome_iff_ne_none.2 hfirst, ?_⟩
          intro time htime
          rw [if_neg hcolour] at htime
          cases hknown : g.colour with
          | none =>
              rw [h.unknown hknown] at htime
              cases htime
          | some colour =>
              cases colour with
              | false => exact absurd hknown hcolour
              | true => exact (h.green hknown).2.2 time htime

theorem tracked (h : s.KnowsGate g) :
    (s.tracked o mono wall).KnowsGate (g.next ⟨o, mono, wall⟩) :=
  (h.started.trackGate).congr (by rw [tracked_ledger]) tracked_greenSinceMono

end PolicyState.KnowsGate

/-! ## The run -/

namespace Ledger

@[simp] theorem book_red (l : Ledger) (b : Booking) (shadow : Bool) :
    (l.book b shadow).red = l.red := by
  cases shadow <;> rfl

@[simp] theorem book_exhaustedUntil (l : Ledger) (b : Booking) (shadow : Bool) :
    (l.book b shadow).exhaustedUntil = l.exhaustedUntil := by
  cases shadow <;> rfl

/-- What a booking leaves alone, many do. -/
theorem foldl_book_eq {α β : Type} (read : Ledger → β) (booking : α → Booking) (shadow : Bool)
    (hread : ∀ l b, read (Ledger.book l b shadow) = read l) (batch : List α) (l : Ledger) :
    read (batch.foldl (fun l p => l.book (booking p) shadow) l) = read l := by
  induction batch generalizing l with
  | nil => rfl
  | cons p rest ih => rw [List.foldl_cons, ih, hread]

end Ledger

theorem PolicyState.startLedger_eq {β : Type} (read : Ledger → β)
    (hread : ∀ l b shadow, read (Ledger.book l b shadow) = read l) (s : PolicyState)
    (o : Observation) (mono wall : ℚ) : read (s.startLedger o mono wall) = read s.ledger := by
  rw [startLedger, List.foldl_cons, List.foldl_cons, List.foldl_nil,
    Ledger.foldl_book_eq read _ _ (fun l b => hread l b true),
    Ledger.foldl_book_eq read _ _ fun l b => hread l b false]

section Decide

variable {s : PolicyState} {o : Observation} {mono wall : ℚ}

/-- Nothing but the bookings and the time of the last action changes behind the bookkeeping. -/
theorem decide_frame {β : Type} (read : PolicyState → β)
    (hledger : ∀ t : PolicyState, read { t with ledger := t.startLedger o mono wall } = read t)
    (hrestart : ∀ (t : PolicyState) trip shadow, read (t.restart mono wall trip shadow).1 = read t) :
    read (decide s o mono wall).1 = read (s.tracked o mono wall) := by
  by_cases hstarved : o.starved = true
  · rw [decide_of_starved hstarved]
  · rw [Bool.not_eq_true] at hstarved
    rcases @decide_cases s o mono wall hstarved with
      ⟨decision, rest, -, hdecide⟩ | ⟨-, hdecide | ⟨trip, -, -, hdecide⟩⟩
    · rw [hdecide]
      exact hledger _
    · rw [hdecide]
    · rw [hdecide]
      exact hrestart _ _ _

theorem decide_red : (decide s o mono wall).1.ledger.red = (s.tracked o mono wall).ledger.red := by
  refine decide_frame (fun t => t.ledger.red) (fun t => ?_) fun t trip shadow => ?_
  · exact PolicyState.startLedger_eq Ledger.red Ledger.book_red t o mono wall
  · exact Ledger.book_red _ _ _

theorem decide_greenSinceMono :
    (decide s o mono wall).1.greenSinceMono = (s.tracked o mono wall).greenSinceMono :=
  decide_frame PolicyState.greenSinceMono (fun _ => rfl) fun _ _ _ => rfl

theorem decide_startedMono :
    (decide s o mono wall).1.startedMono = (s.tracked o mono wall).startedMono :=
  decide_frame PolicyState.startedMono (fun _ => rfl) fun _ _ _ => rfl

end Decide

namespace Run

/-- The state knows what the cycles have shown. -/
structure Tracks (r : Run) : Prop where
  gate : r.state.KnowsGate (GateHistory.ofCycles r.cycles)
  started : r.state.startedMono = r.cycles.head?.map Cycle.mono

theorem Tracks.of_new {mode : Mode} {restartClasses : List Klass} {l : Ledger} {r : Run}
    (hstate : r.state = PolicyState.new mode restartClasses l) (hcycles : r.cycles = [])
    (hred : PolicyState.OnlyLastOpen l.red) : r.Tracks := by
  constructor
  · rw [hstate, hcycles]
    exact ⟨hred, by simp [GateHistory.ofCycles], by simp [GateHistory.ofCycles], fun _ => rfl⟩
  · rw [hstate, hcycles]
    rfl

theorem Tracks.cycle {r : Run} (h : r.Tracks) (o : Observation) (mono wall : ℚ) {t : Run}
    (hstep : r.step (.cycle o mono wall) = some t) : t.Tracks := by
  rw [step, Option.some.injEq] at hstep
  subst hstep
  constructor
  · rw [GateHistory.ofCycles_append]
    exact h.gate.tracked.congr decide_red decide_greenSinceMono
  · change (decide r.state o mono wall).1.startedMono = _
    rw [decide_startedMono, PolicyState.tracked_startedMono, h.started]
    cases r.cycles with
    | nil => rfl
    | cons first rest => rfl

theorem load_onlyLastOpen {l : Ledger} (h : PolicyState.OnlyLastOpen l.red) (readable : Bool)
    (wall : ℚ) :
    PolicyState.OnlyLastOpen (Ledger.load (if readable then some l.file.toValue else none) wall).red := by
  rcases Ledger.load_cases l.file readable wall with hload | hload
  · rw [hload]
    refine List.Pairwise.map _ (fun a b hclosed => ?_) h
    simpa using hclosed
  · rw [hload]
    exact List.Pairwise.nil

theorem tracks_of_reachable {mode : Mode} {restartClasses : List Klass} {r : Run}
    (h : (machine mode restartClasses).Reachable r) : r.Tracks := by
  refine Machine.Reachable.invariant ?_ ?_ h
  · rintro start ⟨hstate, hcycles, -⟩
    exact Tracks.of_new hstate hcycles List.Pairwise.nil
  · rintro r label t htracks hstep
    cases label with
    | cycle o mono wall => exact htracks.cycle o mono wall hstep
    | reload readable wall =>
        change r.step (.reload readable wall) = some t at hstep
        rw [step, Option.some.injEq] at hstep
        subst hstep
        exact Tracks.of_new rfl rfl (load_onlyLastOpen htracks.gate.onlyLast readable wall)

end Run

/-! ## What a cycle decides -/

def Decision.isRestart : Decision → Bool
  | restart .. => true
  | start .. => false

/-- Whether an action is only in the shadow ledger. -/
def Decision.inShadow : Decision → Bool
  | restart _ _ _ shadow => shadow
  | start _ _ shadow => shadow

namespace PolicyState

variable {s : PolicyState} {o : Observation} {mono wall : ℚ}

/-- What nothing holds. -/
theorem of_holds_eq_nil {allTrips : List Trip} {failing : List String} {acted : Bool} {p : Program}
    {shadow : Bool} (h : s.holds o mono wall allTrips failing acted p shadow = []) :
    o.supervisorOk = true ∧ o.gate.isGreen = true ∧ s.justGreen mono = false ∧
      s.inOwnGrace mono = false ∧ s.budgetHolds wall p .restart shadow = false ∧
      o.inFlight = false := by
  simp only [holds, List.append_eq_nil_iff, ite_eq_left_iff, ite_eq_right_iff, List.cons_ne_self,
    imp_false, Bool.not_eq_true, Bool.or_eq_true, not_or, Bool.not_eq_false,
    Bool.decide_eq_false, inGrace] at h
  obtain ⟨⟨⟨⟨⟨⟨⟨h1, h2⟩, -⟩, -⟩, -⟩, h6⟩, h7⟩, h8⟩ := h
  simp_all

theorem of_startHolds_eq_nil {p : Program} {shadow : Bool}
    (h : s.startHolds o mono wall p shadow = []) :
    o.supervisorOk = true ∧ s.inOwnGrace mono = false ∧
      s.budgetHolds wall p .start shadow = false ∧ o.inFlight = false := by
  simp only [startHolds, List.append_eq_nil_iff, ite_eq_left_iff, ite_eq_right_iff,
    List.cons_ne_self, imp_false, Bool.not_eq_true, Bool.not_eq_false] at h
  obtain ⟨⟨⟨h1, h6⟩, h7⟩, h8⟩ := h
  exact ⟨h1, h6, h7, h8⟩

theorem mem_startBatch {p : Program} {shadow : Bool} (h : p ∈ s.startBatch o mono wall shadow) :
    o.gate.isGreen = true ∧ p ∈ s.eligible o ∧ s.shadowFor p.klass = shadow ∧
      s.startHolds o mono wall p shadow = [] := by
  unfold startBatch at h
  split at h
  · cases h
  · rename_i hgreen
    rw [not_or, Bool.not_eq_false] at hgreen
    rw [List.mem_filter, Bool.and_eq_true, decide_eq_true_eq, List.isEmpty_iff] at h
    exact ⟨hgreen.1, h.1, h.2.1, h.2.2⟩

theorem mem_startDecisions {d : Decision} (h : d ∈ s.startDecisions o mono wall) :
    d.isRestart = false ∧ ∃ p, p ∈ s.startBatch o mono wall d.inShadow := by
  rw [startDecisions, List.mem_flatMap] at h
  obtain ⟨shadow, -, hmem⟩ := h
  split at hmem
  · cases hmem
  · rename_i hbatch
    rw [List.mem_singleton] at hmem
    subst hmem
    rw [List.isEmpty_iff] at hbatch
    exact ⟨rfl, List.exists_mem_of_ne_nil _ hbatch⟩

theorem startDecisions_nodup : ((s.startDecisions o mono wall).map Decision.inShadow).Nodup := by
  unfold startDecisions
  by_cases hreal : s.startBatch o mono wall false = []
  · by_cases hshadow : s.startBatch o mono wall true = []
    · simp [hreal, hshadow]
    · simp [hreal, hshadow]
  · by_cases hshadow : s.startBatch o mono wall true = []
    · simp [hreal, hshadow]
    · simp [hreal, hshadow, Decision.inShadow]

end PolicyState

section Decide

variable {s : PolicyState} {o : Observation} {mono wall : ℚ}

/-- An action is one restart, or a batch of starts. -/
theorem decide_actions :
    (∃ d, (decide s o mono wall).2 = [d] ∧ d.isRestart = true) ∨
      (∀ d ∈ (decide s o mono wall).2, d.isRestart = false) ∧
        ((decide s o mono wall).2.map Decision.inShadow).Nodup := by
  by_cases hstarved : o.starved = true
  · simp [decide_of_starved hstarved]
  · rw [Bool.not_eq_true] at hstarved
    rcases @decide_cases s o mono wall hstarved with
      ⟨decision, rest, hstarts, hdecide⟩ | ⟨-, hdecide | ⟨trip, -, -, hdecide⟩⟩
    · right
      rw [hdecide, ← hstarts]
      exact ⟨fun d hd => (PolicyState.mem_startDecisions hd).1, PolicyState.startDecisions_nodup⟩
    · right
      simp [hdecide]
    · left
      rw [hdecide]
      exact ⟨_, rfl, rfl⟩

/-- What holds when a cycle acts, and when it restarts. -/
theorem of_mem_decide {d : Decision} (h : d ∈ (decide s o mono wall).2) :
    o.starved = false ∧ o.supervisorOk = true ∧ o.gate.isGreen = true ∧ o.inFlight = false ∧
      (s.tracked o mono wall).inOwnGrace mono = false ∧
      (d.isRestart = true → (s.tracked o mono wall).justGreen mono = false) := by
  have hstarved : o.starved = false := by
    by_contra hstarved
    rw [Bool.not_eq_false] at hstarved
    simp [decide_of_starved hstarved] at h
  rcases @decide_cases s o mono wall hstarved with
    ⟨decision, rest, hstarts, hdecide⟩ | ⟨-, hdecide | ⟨trip, -, hfree, hdecide⟩⟩
  · rw [hdecide, ← hstarts] at h
    obtain ⟨hstart, p, hp⟩ := PolicyState.mem_startDecisions h
    obtain ⟨hgreen, -, -, hholds⟩ := PolicyState.mem_startBatch hp
    obtain ⟨hsupervisor, hgrace, -, hflight⟩ := PolicyState.of_startHolds_eq_nil hholds
    refine ⟨hstarved, hsupervisor, hgreen, hflight, hgrace, ?_⟩
    rw [hstart]
    exact fun hrestart => absurd hrestart Bool.false_ne_true
  · rw [hdecide] at h
    cases h
  · obtain ⟨hsupervisor, hgreen, hsettled, hgrace, -, hflight⟩ := PolicyState.of_holds_eq_nil hfree
    exact ⟨hstarved, hsupervisor, hgreen, hflight, hgrace, fun _ => hsettled⟩

end Decide

/-- At most one action in a cycle, and none under a hold. -/
theorem actions_held {mode : Mode} {restartClasses : List Klass} {r : Run}
    (h : (machine mode restartClasses).Reachable r) (o : Observation) (mono wall : ℚ) :
    ((∃ d, (decide r.state o mono wall).2 = [d] ∧ d.isRestart = true) ∨
      (∀ d ∈ (decide r.state o mono wall).2, d.isRestart = false) ∧
        ((decide r.state o mono wall).2.map Decision.inShadow).Nodup) ∧
    (o.starved = true ∨ o.gate.isGreen = false ∨ o.supervisorOk = false ∨ o.inFlight = true ∨
        mono - ((r.cycles.head?.map Cycle.mono).getD mono) < graceS →
      (decide r.state o mono wall).2 = []) ∧
    ∀ time, (GateHistory.ofCycles (r.cycles ++ [⟨o, mono, wall⟩])).turnedGreen = some time →
      mono - time < greenBeforeRestartS →
      ∀ d ∈ (decide r.state o mono wall).2, d.isRestart = false := by
  have htracks := Run.tracks_of_reachable h
  refine ⟨decide_actions, ?_, ?_⟩
  · intro hhold
    rw [List.eq_nil_iff_forall_not_mem]
    intro d hd
    obtain ⟨hstarved, hsupervisor, hgreen, hflight, hgrace, -⟩ := of_mem_decide hd
    rw [PolicyState.inOwnGrace, PolicyState.tracked_startedMono, htracks.started,
      decide_eq_false_iff_not] at hgrace
    rcases hhold with hhold | hhold | hhold | hhold | hhold
    · rw [hhold] at hstarved
      cases hstarved
    · rw [hhold] at hgreen
      cases hgreen
    · rw [hhold] at hsupervisor
      cases hsupervisor
    · rw [hhold] at hflight
      cases hflight
    · exact hgrace hhold
  · intro time htime hsettling d hd
    obtain ⟨hstarved, -, hgreen, -, -, hsettled⟩ := of_mem_decide hd
    by_contra hrestart
    rw [Bool.not_eq_false] at hrestart
    have hknows := @PolicyState.KnowsGate.tracked _ _ o mono wall htracks.gate
    rw [← GateHistory.ofCycles_append] at hknows
    have hcolour : (GateHistory.ofCycles (r.cycles ++ [⟨o, mono, wall⟩])).colour = some true := by
      rw [GateHistory.ofCycles_append, GateHistory.next]
      simp [Observation.gateCounts, hstarved, hgreen]
    have hsince := (hknows.green hcolour).2.2 time htime
    have hwait := hsettled hrestart
    rw [PolicyState.justGreen, hsince, decide_eq_false_iff_not] at hwait
    exact hwait hsettling

/-! ### A small system -/

/-- An evaluation service that answers or not, between two web servers that do. -/
def smallSystem (lagS : ℚ) (gate : Gate) (answers : Bool) : Observation where
  lagS
  sincePreviousS := some 30
  supervisorOk := true
  programs :=
    [⟨"es", some .evaluationService, some 0, .running, some 11, some 0, fun _ => rfl⟩,
      ⟨"cws", some .contestWebServer, some 0, .running, some 12, some 0, fun _ => rfl⟩,
      ⟨"aws", some .adminWebServer, some 0, .running, some 13, some 0, fun _ => rfl⟩]
  gate
  http := (Dict.empty.set "cws" ⟨true⟩).set "aws" ⟨true⟩
  rpc := Dict.empty.set "es" ⟨answers⟩
  health := Dict.empty
  workers := none
  rankings := Dict.empty
  holderCpu := none
  inFlight := false
  names_distinct := by decide

/-- The watchdog before its first cycle. -/
def newRun (mode : Mode) (restartClasses : List Klass) : Run where
  state := PolicyState.new mode restartClasses Ledger.empty
  wall := 0
  cycles := []
  booked := fun _ => []

theorem init_newRun (mode : Mode) (restartClasses : List Klass) :
    (machine mode restartClasses).init (newRun mode restartClasses) :=
  ⟨rfl, rfl, fun _ => rfl⟩

/-- A cycle with the monotonic clock a while behind the wall clock. -/
def smallCycle (mono : ℚ) (o : Observation) : Label := .cycle o mono (1000 + mono)

/-- The database comes back, and the evaluation service fails five probes right after. -/
def backAndMissing : Run :=
  ((machine .enforce [.core]).exec (newRun .enforce [.core])
    (smallCycle 0 (smallSystem 0 (.green []) true) ::
      smallCycle 200 (smallSystem 0 (.red .timeout) true) ::
      [210, 215, 220, 225].map fun mono => smallCycle mono (smallSystem 0 (.green []) false))).get
    (by decide +kernel)

theorem backAndMissing_reachable : (machine .enforce [.core]).Reachable backAndMissing :=
  Machine.reachable_of_exec (init_newRun _ _) (Option.some_get _).symm

theorem actions_held_back_and_missing :
    (GateHistory.ofCycles (backAndMissing.cycles ++
        [⟨smallSystem 0 (.green []) false, 230, 1230⟩])).turnedGreen = some 210 ∧
      ∀ d ∈ (decide backAndMissing.state (smallSystem 0 (.green []) false) 230 1230).2,
        d.isRestart = false := by
  have hturned : (GateHistory.ofCycles (backAndMissing.cycles ++
      [⟨smallSystem 0 (.green []) false, 230, 1230⟩])).turnedGreen = some 210 := by decide +kernel
  exact ⟨hturned, (actions_held backAndMissing_reachable _ _ _).2.2 _ hturned (by decide +kernel)⟩

/-- The evaluation service fails four probes, and then a starved cycle gets no answer from the
database. -/
def missingAndStarved : Run :=
  ((machine .enforce [.core]).exec (newRun .enforce [.core])
    ([0, 30, 60, 90].map (fun mono => smallCycle mono (smallSystem 0 (.green []) false)) ++
      [smallCycle 105 (smallSystem 6 (.red .timeout) false)])).get (by decide +kernel)

theorem missingAndStarved_reachable : (machine .enforce [.core]).Reachable missingAndStarved :=
  Machine.reachable_of_exec (init_newRun _ _) (Option.some_get _).symm

/-- A gate that was red in a starved cycle only is not waited for. -/
theorem starved_red_not_settled :
    (machine .enforce [.core]).Reachable missingAndStarved ∧
      (missingAndStarved.cycles.getLast?.map fun c => c.observation.gate.isGreen) = some false ∧
      (smallSystem 0 (.green []) false).gate.isGreen = true ∧
      (decide missingAndStarved.state (smallSystem 0 (.green []) false) 120 1120).2 =
        [.restart "es" .r2 false false] :=
  ⟨missingAndStarved_reachable, by decide +kernel, by decide, by decide +kernel⟩

end Watchdog
end ContestManagement
