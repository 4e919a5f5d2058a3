import ContestManagement.Watchdog.Budgets

/-!
# Restarts for missed probes

The rules R1 and R2 restart a program that has missed most of its last probes.  `judged` reads from
the cycles of a run the probes that count: those of the cycles that were not starved, since the last
pause and since the gate last turned green.  The window that the policy keeps for a program is the
end of that list, and all of it is about the process that runs now.
-/

namespace ContestManagement
namespace Watchdog

open Lib

/-! ## The probes that count -/

/-- The probe of a program that a cycle judges: its process, and whether it was missed. -/
def Cycle.judged (c : Cycle) (name : String) : Option (Option ℤ × Bool) :=
  if c.observation.starved then none
  else
    (c.observation.running.find? fun p => p.name = name).bind fun p =>
      (c.observation.livenessProbe p).map fun probe => (p.pid, !probe.ok)

/-- The judged probes of some cycles, oldest first. -/
def judged (name : String) (cycles : List Cycle) : List (Option ℤ × Bool) :=
  cycles.filterMap fun c => c.judged name

/-- Whether a cycle follows a pause, or the gate turns green in it. -/
def GateHistory.breaks (g : GateHistory) (c : Cycle) : Bool :=
  c.observation.paused ||
    c.observation.gateCounts && c.observation.gate.isGreen && g.colour = some false

/-- The cycles since the last break, given those since the one before. -/
def afterBreak (g : GateHistory) (since : List Cycle) (c : Cycle) : List Cycle :=
  if g.breaks c then [c] else since ++ [c]

/-- What the cycles show of the gate, and the cycles since the last break. -/
def scan (cycles : List Cycle) : GateHistory × List Cycle :=
  cycles.foldl (fun state c => (state.1.next c, afterBreak state.1 state.2 c)) (⟨none, none⟩, [])

/-- The cycles since the gate last turned green and since the last pause. -/
def sinceBreak (cycles : List Cycle) : List Cycle := (scan cycles).2

theorem scan_fst (cycles : List Cycle) : (scan cycles).1 = GateHistory.ofCycles cycles := by
  unfold scan GateHistory.ofCycles
  generalize (⟨none, none⟩ : GateHistory) = g
  generalize ([] : List Cycle) = since
  induction cycles generalizing g since with
  | nil => rfl
  | cons c rest ih => rw [List.foldl_cons, List.foldl_cons, ih]

theorem sinceBreak_append (cycles : List Cycle) (c : Cycle) :
    sinceBreak (cycles ++ [c]) =
      afterBreak (GateHistory.ofCycles cycles) (sinceBreak cycles) c := by
  rw [← scan_fst]
  simp [sinceBreak, scan]

/-- The cycles since the last break are the last ones. -/
theorem sinceBreak_suffix (cycles : List Cycle) : sinceBreak cycles <:+ cycles := by
  induction cycles using List.reverseRecOn with
  | nil => exact List.suffix_refl _
  | append_singleton before c ih =>
      rw [sinceBreak_append, afterBreak]
      split
      · exact List.suffix_append _ _
      · obtain ⟨earlier, hearlier⟩ := ih
        exact ⟨earlier, by rw [← List.append_assoc, hearlier]⟩

theorem judged_append (name : String) (cycles : List Cycle) (c : Cycle) :
    judged name (cycles ++ [c]) = judged name cycles ++ (c.judged name).toList := by
  rw [judged, List.filterMap_append, judged]
  cases hc : c.judged name <;> simp [hc]

/-! ## What the policy remembers of a program -/

/-- The process of a program that was last seen, and its window. -/
def PolicyState.memory (s : PolicyState) (name : String) : Option ℤ × List Bool :=
  match s.programs.get? name with
  | some p => (p.pid, p.window)
  | none => (none, [])

/-- A memory is of the last probes, all of the process that was last seen. -/
def Remembers (memory : Option ℤ × List Bool) (probes : List (Option ℤ × Bool)) : Prop :=
  ∃ last, last <:+ probes ∧ memory.2 = last.map Prod.snd ∧ (∀ probe ∈ last, probe.1 = memory.1) ∧
    last.length ≤ windowSize ∧ (memory.1 = none → last = [])

theorem remembers_nil (pid : Option ℤ) (probes : List (Option ℤ × Bool)) :
    Remembers (pid, []) probes :=
  ⟨[], List.nil_suffix, rfl, by simp, Nat.zero_le _, fun _ => rfl⟩

theorem Observation.running_names_nodup (o : Observation) : (o.running.map Program.name).Nodup :=
  o.managed_names_nodup.sublist (List.Sublist.map _ List.filter_sublist)

namespace PolicyState

variable {s : PolicyState} {o : Observation} {mono wall : ℚ} {name : String}

theorem missesOf_eq : s.missesOf name = (s.memory name).2.count true := by
  unfold missesOf windowOf memory
  cases s.programs.get? name <;> rfl

theorem clearWindows_memory : s.clearWindows.memory name = ((s.memory name).1, []) := by
  unfold memory clearWindows
  dsimp only
  rw [Dict.get?_mapValues]
  cases s.programs.get? name <;> rfl

theorem trackPause_memory :
    (s.trackPause o).memory name = if o.paused then ((s.memory name).1, []) else s.memory name := by
  unfold trackPause
  by_cases hpaused : o.paused = true
  · rw [if_pos hpaused, if_pos hpaused, clearWindows_memory]
  · rw [if_neg hpaused, if_neg hpaused]

theorem closeRed_programs : (s.closeRed wall).programs = s.programs := by
  unfold closeRed
  split <;> rfl

/-- The windows are cleared when the gate turns green, and else kept. -/
theorem trackGate_memory :
    (s.trackGate o mono wall).memory name =
      if o.gateCounts = true ∧ o.gate.isGreen = true ∧ s.redOpen = true
      then ((s.memory name).1, []) else s.memory name := by
  unfold trackGate
  by_cases hcounts : o.gateCounts = true
  · rw [if_neg (by simp [hcounts])]
    by_cases hgreen : o.gate.isGreen = true
    · rw [if_neg (by simp [hgreen])]
      by_cases hopen : s.redOpen = true
      · rw [if_pos hopen, if_pos ⟨hcounts, hgreen, hopen⟩]
        have hcleared : ({ (s.closeRed wall).clearWindows with
            greenSinceMono := some mono, greenCycles := 1 } : PolicyState).memory name =
            (s.closeRed wall).clearWindows.memory name := rfl
        rw [hcleared, clearWindows_memory, memory, memory, closeRed_programs]
      · have hstays : ¬(o.gateCounts = true ∧ o.gate.isGreen = true ∧ s.redOpen = true) :=
          fun h => hopen h.2.2
        rw [if_neg hopen, if_neg hstays]
        split <;> rfl
    · have hstays : ¬(o.gateCounts = true ∧ o.gate.isGreen = true ∧ s.redOpen = true) :=
        fun h => hgreen h.2.1
      rw [if_pos (by simpa using hgreen), if_neg hstays]
      rfl
  · have hstays : ¬(o.gateCounts = true ∧ o.gate.isGreen = true ∧ s.redOpen = true) :=
      fun h => hcounts h.1
    rw [if_pos (by simpa using hcounts), if_neg hstays]

/-- Each running program is noted once. -/
theorem trackPrograms_get? (s : PolicyState) (o : Observation) (name : String) :
    (s.trackPrograms o).programs.get? name =
    match o.running.find? fun p => p.name = name with
    | some p => some (trackedState o p (s.programs.get? name))
    | none => s.programs.get? name := by
  have hset := Dict.get?_foldl_set Program.name (trackedState o) o.running_names_nodup s.programs name
  refine hset.trans ?_
  cases o.running.find? fun p => p.name = name with
  | none => rfl
  | some p => rfl

theorem pushResult_map (last : List (Option ℤ × Bool)) (probe : Option ℤ × Bool) :
    pushResult (last.map Prod.snd) probe.2 =
      ((last ++ [probe]).drop (last.length + 1 - windowSize)).map Prod.snd := by
  rw [pushResult, List.map_drop, List.map_append, List.length_map]
  rfl

end PolicyState

namespace Remembers

variable {memory : Option ℤ × List Bool} {probes : List (Option ℤ × Bool)}

/-- The window of a program that has a process of its own, after its process was looked at. -/
theorem sameProcess (h : Remembers memory probes) {pid : Option ℤ} (hpid : pid.isSome = true) :
    Remembers (pid, if memory.1.isSome ∧ memory.1 ≠ pid then [] else memory.2) probes := by
  obtain ⟨last, hsuffix, hwindow, hsame, hlength, hnone⟩ := h
  by_cases hnew : memory.1.isSome ∧ memory.1 ≠ pid
  · rw [if_pos hnew]
    exact remembers_nil _ _
  · rw [if_neg hnew]
    refine ⟨last, hsuffix, hwindow, ?_, hlength, ?_⟩
    · intro probe hprobe
      rw [hsame probe hprobe]
      rw [not_and, not_not] at hnew
      cases hmemory : memory.1 with
      | none =>
          rw [hnone hmemory] at hprobe
          cases hprobe
      | some seen =>
          rw [← hmemory]
          exact hnew (by rw [hmemory]; rfl)
    · intro hmissing
      change pid = none at hmissing
      rw [hmissing] at hpid
      cases hpid

/-- One more probe of the same process. -/
theorem push (h : Remembers memory probes) (hpid : memory.1.isSome = true) (miss : Bool) :
    Remembers (memory.1, PolicyState.pushResult memory.2 miss) (probes ++ [(memory.1, miss)]) := by
  obtain ⟨last, ⟨before, hbefore⟩, hwindow, hsame, hlength, -⟩ := h
  refine ⟨(last ++ [(memory.1, miss)]).drop (last.length + 1 - windowSize), ?_, ?_, ?_, ?_, ?_⟩
  · refine (List.drop_suffix _ _).trans ⟨before, ?_⟩
    rw [← List.append_assoc, hbefore]
  · rw [hwindow]
    exact PolicyState.pushResult_map last (memory.1, miss)
  · intro probe hprobe
    rcases List.mem_append.1 (List.mem_of_mem_drop hprobe) with hold | hnew
    · exact hsame probe hold
    · rw [List.mem_singleton] at hnew
      rw [hnew]
  · rw [List.length_drop, List.length_append, List.length_singleton]
    omega
  · intro hmissing
    change memory.1 = none at hmissing
    rw [hmissing] at hpid
    cases hpid

end Remembers

/-- A program that runs has a process. -/
theorem Observation.pid_of_running {o : Observation} {p : Program} (h : p ∈ o.running) :
    p.pid.isSome = true := by
  rw [running, List.mem_filter, decide_eq_true_eq, managed, List.mem_filterMap] at h
  obtain ⟨⟨facts, -, hmanaged⟩, hstate⟩ := h
  unfold ProgramFacts.managed? at hmanaged
  split at hmanaged
  · rw [Option.some.injEq] at hmanaged
    subst hmanaged
    exact facts.running_pid hstate
  · cases hmanaged

namespace PolicyState

variable {s : PolicyState} {o : Observation} {mono wall : ℚ} {name : String}
  {probes : List (Option ℤ × Bool)}

/-- A cycle adds the probe that it judges. -/
theorem remembers_trackPrograms (h : Remembers (s.memory name) probes) :
    Remembers ((s.trackPrograms o).memory name)
      (probes ++ (Cycle.judged ⟨o, mono, wall⟩ name).toList) := by
  unfold Cycle.judged
  dsimp only
  rw [memory, trackPrograms_get?]
  cases hfind : o.running.find? fun p => p.name = name with
  | none =>
      simp only [Option.bind_none, ite_self, Option.toList_none, List.append_nil]
      exact h
  | some p =>
      have hpid : p.pid.isSome = true := Observation.pid_of_running (List.mem_of_find?_eq_some hfind)
      have hbefore : s.memory name = (((s.programs.get? name).getD ⟨none, [], none⟩).pid,
          ((s.programs.get? name).getD ⟨none, [], none⟩).window) := by
        rw [memory]
        cases s.programs.get? name <;> rfl
      have hsame := h.sameProcess hpid
      rw [hbefore] at hsame
      simp only [trackedState, Option.bind_some]
      cases hprobe : o.livenessProbe p with
      | none =>
          simp only [Option.map_none, ite_self, Option.toList_none, List.append_nil]
          exact hsame
      | some probe =>
          by_cases hstarved : o.starved = true
          · simp only [hstarved, if_true, Option.toList_none, List.append_nil]
            exact hsame
          · simp only [hstarved, if_false, Bool.false_eq_true, Option.map_some,
              Option.toList_some]
            exact hsame.push hpid _

/-- The process of a running program is the one that was last seen. -/
theorem tracked_pid {p : Program} (h : p ∈ o.running) :
    ((s.tracked o mono wall).memory p.name).1 = p.pid := by
  have hfind : (o.running.find? fun q => q.name = p.name) = some p :=
    (find?_key_eq_some_iff o.running_names_nodup).2 ⟨h, rfl⟩
  have hmemory : (s.tracked o mono wall).memory p.name =
      ((((s.started mono wall).trackGate o mono wall).trackPause o).trackPrograms o).memory
        p.name := rfl
  rw [hmemory, memory, trackPrograms_get?, hfind]
  rfl

/-- The windows are cleared at a break, and else kept. -/
theorem remembers_tracked {g : GateHistory} {since : List Cycle} (hgate : s.KnowsGate g)
    (h : Remembers (s.memory name) (judged name since)) :
    Remembers ((s.tracked o mono wall).memory name)
      (judged name (afterBreak g since ⟨o, mono, wall⟩)) := by
  have hmemory : (s.tracked o mono wall).memory name =
      ((((s.started mono wall).trackGate o mono wall).trackPause o).trackPrograms o).memory name :=
    rfl
  rw [hmemory, afterBreak]
  by_cases hbreak : g.breaks ⟨o, mono, wall⟩ = true
  · rw [if_pos hbreak]
    have hjudged : judged name [⟨o, mono, wall⟩] =
        [] ++ (Cycle.judged ⟨o, mono, wall⟩ name).toList := judged_append name [] _
    rw [hjudged]
    refine remembers_trackPrograms ?_
    rw [trackPause_memory]
    by_cases hpaused : o.paused = true
    · rw [if_pos hpaused]
      exact remembers_nil _ _
    · rw [if_neg hpaused, trackGate_memory]
      rw [GateHistory.breaks, Bool.or_eq_true, Bool.and_eq_true, Bool.and_eq_true,
        decide_eq_true_eq] at hbreak
      obtain ⟨⟨hcounts, hgreen⟩, hred⟩ := hbreak.resolve_left hpaused
      have hopen : (s.started mono wall).redOpen = true := hgate.started.red hred
      rw [if_pos ⟨hcounts, hgreen, hopen⟩]
      exact remembers_nil _ _
  · rw [if_neg hbreak, judged_append]
    refine remembers_trackPrograms ?_
    rw [trackPause_memory]
    split
    · exact remembers_nil _ _
    · rw [trackGate_memory]
      split
      · exact remembers_nil _ _
      · exact h

/-- A restart only notes when it was done. -/
theorem restart_memory (trip : Trip) (shadow : Bool) :
    (s.restart mono wall trip shadow).1.memory name = s.memory name := by
  unfold restart memory
  dsimp only
  rw [Dict.get?_set]
  by_cases hname : name = trip.program.name
  · rw [if_pos hname, hname]
    cases s.programs.get? trip.program.name <;> rfl
  · rw [if_neg hname]

end PolicyState

/-! ## The run -/

theorem decide_memory {s : PolicyState} {o : Observation} {mono wall : ℚ} {name : String} :
    (decide s o mono wall).1.memory name = (s.tracked o mono wall).memory name :=
  decide_frame (fun t => t.memory name) (fun _ => rfl) fun _ trip shadow =>
    PolicyState.restart_memory trip shadow

namespace Run

/-- The windows are of the last judged probes. -/
def Judges (r : Run) : Prop :=
  ∀ name, Remembers (r.state.memory name) (judged name (sinceBreak r.cycles))

theorem judges_of_reachable {mode : Mode} {restartClasses : List Klass} {r : Run}
    (h : (machine mode restartClasses).Reachable r) : r.Tracks ∧ r.Judges := by
  refine Machine.Reachable.invariant (I := fun r => r.Tracks ∧ r.Judges) ?_ ?_ h
  · rintro start ⟨hstate, hcycles, -⟩
    refine ⟨Tracks.of_new hstate hcycles List.Pairwise.nil, fun name => ?_⟩
    rw [hstate]
    exact remembers_nil _ _
  · rintro r label t ⟨htracks, hjudges⟩ hstep
    cases label with
    | cycle o mono wall =>
        refine ⟨htracks.cycle o mono wall hstep, fun name => ?_⟩
        change r.step (.cycle o mono wall) = some t at hstep
        rw [step, Option.some.injEq] at hstep
        subst hstep
        rw [sinceBreak_append, decide_memory]
        exact PolicyState.remembers_tracked htracks.gate (hjudges name)
    | reload readable wall =>
        change r.step (.reload readable wall) = some t at hstep
        rw [step, Option.some.injEq] at hstep
        subst hstep
        refine ⟨Tracks.of_new rfl rfl (load_onlyLastOpen htracks.gate.onlyLast readable wall), ?_⟩
        exact fun name => remembers_nil _ _

end Run

/-- The rules that judge the liveness of a program. -/
def Rule.isLiveness : Rule → Bool
  | r1 | r2 => true
  | r3 | r4 | r5 => false

theorem PolicyState.of_mem_trips {s : PolicyState} {o : Observation} {mono wall : ℚ} {trip : Trip}
    (h : trip ∈ s.trips o mono wall) (hrule : trip.rule.isLiveness = true) :
    missesToTrip ≤ s.missesOf trip.program.name ∧ o.missedNow trip.program = true := by
  rw [trips, List.mem_append, List.mem_append] at h
  rcases h with (h | h) | h
  · exact (of_mem_livenessTrips h).2
  · obtain ⟨p, -, rfl⟩ := List.mem_map.1 h
    cases hrule
  · rw [(of_mem_workerTrips h).2] at hrule
    cases hrule

/-- A restart for missed probes is of a running program that has missed most of its last probes:
all of them of the process that runs, in cycles that were not starved, since the last pause and
since the gate last turned green. -/
theorem liveness_restarts_justified {mode : Mode} {restartClasses : List Klass} {r : Run}
    (h : (machine mode restartClasses).Reachable r) {o : Observation} {mono wall : ℚ}
    {name : String} {rule : Rule} {would shadow : Bool} (hrule : rule.isLiveness = true)
    (hd : Decision.restart name rule would shadow ∈ (decide r.state o mono wall).2) :
    ∃ p ∈ o.running, p.name = name ∧ o.missedNow p = true ∧
      ∃ last, last <:+ judged name (r.cycles ++ [⟨o, mono, wall⟩]) ∧
        last <:+ judged name (sinceBreak (r.cycles ++ [⟨o, mono, wall⟩])) ∧
        last.length ≤ windowSize ∧ missesToTrip ≤ last.countP Prod.snd ∧
        ∀ probe ∈ last, probe.1 = p.pid := by
  have hstarved := (of_mem_decide hd).1
  rcases @decide_cases r.state o mono wall hstarved with
    ⟨decision, rest, hstarts, hdecide⟩ | ⟨-, hdecide | ⟨trip, hmem, -, hdecide⟩⟩
  · rw [hdecide, ← hstarts] at hd
    cases (PolicyState.mem_startDecisions hd).1
  · rw [hdecide] at hd
    cases hd
  · rw [hdecide, List.mem_singleton, PolicyState.restart, Decision.restart.injEq] at hd
    obtain ⟨rfl, rfl, -, -⟩ := hd
    obtain ⟨hmisses, hmissed⟩ := PolicyState.of_mem_trips hmem hrule
    have hrunning := PolicyState.running_of_mem_trips hmem
    obtain ⟨htracks, hjudges⟩ := Run.judges_of_reachable h
    have hremembers := @PolicyState.remembers_tracked _ o mono wall _ _ _ htracks.gate
      (hjudges trip.program.name)
    rw [← sinceBreak_append] at hremembers
    obtain ⟨last, hsuffix, hwindow, hsame, hlength, -⟩ := hremembers
    have hlast : last <:+ judged trip.program.name (r.cycles ++ [⟨o, mono, wall⟩]) :=
      hsuffix.trans ((sinceBreak_suffix _).filterMap _)
    refine ⟨trip.program, hrunning, rfl, hmissed, last, hlast, hsuffix, hlength, ?_, ?_⟩
    · rw [PolicyState.missesOf_eq, hwindow, List.count, List.countP_map] at hmisses
      refine hmisses.trans_eq (List.countP_congr fun probe _ => ?_)
      simp
    · intro probe hprobe
      rw [hsame probe hprobe]
      exact PolicyState.tracked_pid hrunning

/-- The evaluation service fails four probes; the fifth one is due. -/
def fourMissed : Run :=
  ((machine .enforce [.core]).exec (newRun .enforce [.core])
    ([0, 30, 60, 90].map fun mono => smallCycle mono (smallSystem 0 (.green []) false))).get
    (by decide +kernel)

theorem liveness_restarts_justified_fifth :
    Decision.restart "es" .r2 false false ∈
        (decide fourMissed.state (smallSystem 0 (.green []) false) 120 1120).2 ∧
      ∃ p ∈ (smallSystem 0 (.green []) false).running, p.name = "es" ∧
        (smallSystem 0 (.green []) false).missedNow p = true ∧
        ∃ last, last <:+ judged "es" (fourMissed.cycles ++
            [⟨smallSystem 0 (.green []) false, 120, 1120⟩]) ∧
          last <:+ judged "es" (sinceBreak (fourMissed.cycles ++
            [⟨smallSystem 0 (.green []) false, 120, 1120⟩])) ∧
          last.length ≤ windowSize ∧ missesToTrip ≤ last.countP Prod.snd ∧
          ∀ probe ∈ last, probe.1 = p.pid := by
  have hreach : (machine .enforce [.core]).Reachable fourMissed :=
    Machine.reachable_of_exec (init_newRun _ _) (Option.some_get _).symm
  have hd : Decision.restart "es" .r2 false false ∈
      (decide fourMissed.state (smallSystem 0 (.green []) false) 120 1120).2 := by decide +kernel
  exact ⟨hd, liveness_restarts_justified hreach rfl hd⟩

/-- The misses before a red gate that only a starved cycle saw still count. -/
theorem starved_red_keeps_misses :
    (machine .enforce [.core]).Reachable missingAndStarved ∧
      (missingAndStarved.cycles.getLast?.map fun c => c.observation.gate.isGreen) = some false ∧
      (smallSystem 0 (.green []) false).gate.isGreen = true ∧
      Decision.restart "es" .r2 false false ∈
        (decide missingAndStarved.state (smallSystem 0 (.green []) false) 120 1120).2 ∧
      -- Since the gate was red there is one probe, that of this cycle.
      judged "es" [⟨smallSystem 0 (.green []) false, 120, 1120⟩] = [(some 11, true)] :=
  ⟨missingAndStarved_reachable, by decide +kernel, by decide, by decide +kernel,
    by decide +kernel⟩

end Watchdog
end ContestManagement
