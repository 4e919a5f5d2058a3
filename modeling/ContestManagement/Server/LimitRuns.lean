import ContestManagement.Server.LimitChecks

/-!
# The limits hold under concurrent requests

A request that has passed a check holds the lock, and what it has checked stays true until its
transaction ends: another request can only commit without the lock when the limit does not concern
it, because it is on another task, or because it is in the last minutes.
-/

namespace ContestManagement
namespace Server

open Lib

/-- Whether the minimum interval does not apply at a time. -/
def LimitSetup.inGrace (setup : LimitSetup) (kind : RequestKind) (timestamp : ℤ) : Bool :=
  match kind with
  | .submission => setup.inLastMinutes timestamp
  | .userTest => false

/-- Of two rows, the later one is in the last minutes, or they are an interval apart. -/
def Apart (grace : ℤ → Bool) (interval : ℤ) (a b : Row) : Prop :=
  (a.timestamp ≤ b.timestamp → grace b.timestamp = false →
      a.timestamp + interval ≤ b.timestamp) ∧
    (b.timestamp ≤ a.timestamp → grace a.timestamp = false →
      b.timestamp + interval ≤ a.timestamp)

/-- The rows of one kind are within limits, those of the contest or those of a task. -/
structure WithinLimits (grace : ℤ → Bool) (limits : Limits) (rows : List Row) : Prop where
  maxNumber : ∀ limit ∈ limits.maxNumber, rows.length ≤ limit
  minInterval : ∀ interval ∈ limits.minInterval, rows.Pairwise (Apart grace interval)

/-! ## The statements -/

theorem GroupParticipation.isLastMinutes_mono {p : GroupParticipation} {time time' : ℤ}
    (h : p.isLastMinutes time = .ok true) (hle : time ≤ time') :
    p.isLastMinutes time' = .ok true := by
  unfold isLastMinutes at h ⊢
  cases hrestricted : p.unrestricted with
  | true => simp [hrestricted] at h
  | false =>
      cases hgrace : p.gracePeriod with
      | none => simp [hrestricted, hgrace] at h
      | some grace =>
          rw [hrestricted, hgrace] at h
          dsimp only at h ⊢
          cases hend : p.endTime with
          | error e =>
              rw [hend] at h
              cases h
          | ok endTime =>
              rw [hend] at h
              have hleft : decide (endTime + (p.delayTime + p.extraTime) - time ≤ grace) = true :=
                Except.ok.inj h
              rw [decide_eq_true_eq] at hleft
              refine congrArg Except.ok (decide_eq_true ?_)
              omega

theorem LimitSetup.inLastMinutes_iff {setup : LimitSetup} {timestamp : ℤ} :
    setup.inLastMinutes timestamp = true ↔
      setup.participation.isLastMinutes timestamp = .ok true := by
  unfold inLastMinutes
  split
  case h_1 heq => exact iff_of_true rfl heq
  case h_2 hne => exact iff_of_false Bool.false_ne_true fun heq => hne heq

theorem LimitSetup.inGrace_mono {setup : LimitSetup} {kind : RequestKind} {time time' : ℤ}
    (h : setup.inGrace kind time = true) (hle : time ≤ time') :
    setup.inGrace kind time' = true := by
  cases kind with
  | submission =>
      exact inLastMinutes_iff.2 (GroupParticipation.isLastMinutes_mono (inLastMinutes_iff.1 h) hle)
  | userTest => exact h

theorem rowsOn_append (task : Option ℕ) (rows : List Row) (row : Row) :
    rowsOn task (rows ++ [row]) =
      rowsOn task rows ++ if ∀ t ∈ task, row.task = t then [row] else [] := by
  cases task with
  | none => simp [rowsOn]
  | some task =>
      by_cases h : row.task = task
      · simp [rowsOn, h]
      · simp [rowsOn, h]

theorem laterRow_some (latest : Option Row) (row : Row) : ∃ later, laterRow latest row = some later ∧
    row.timestamp ≤ later.timestamp ∧ ∀ other ∈ latest, other.timestamp ≤ later.timestamp := by
  cases latest with
  | none => exact ⟨row, rfl, le_refl _, by simp⟩
  | some other =>
      rw [laterRow]
      split
      case isTrue hlt => exact ⟨row, rfl, le_refl _, by simp; omega⟩
      case isFalse hle => exact ⟨other, rfl, by omega, by simp⟩

theorem le_foldl_laterRow {rows : List Row} {latest : Option Row} {row : Row}
    (h : row ∈ latest ∨ row ∈ rows) :
    ∃ last, rows.foldl laterRow latest = some last ∧ row.timestamp ≤ last.timestamp := by
  induction rows generalizing latest row with
  | nil =>
      rcases h with h | h
      · exact ⟨row, h, le_refl _⟩
      · cases h
  | cons first rest ih =>
      obtain ⟨later, hlater, hfirst, hother⟩ := laterRow_some latest first
      rw [List.foldl_cons, hlater]
      rcases h with h | h
      · obtain ⟨last, hlast, hle⟩ := ih (Or.inl (Option.mem_some_self later))
        exact ⟨last, hlast, (hother row h).trans hle⟩
      · rcases List.mem_cons.1 h with rfl | h
        · obtain ⟨last, hlast, hle⟩ := ih (Or.inl (Option.mem_some_self later))
          exact ⟨last, hlast, hfirst.trans hle⟩
        · exact ih (Or.inr h)

/-- A request that passes the check comes an interval after all rows. -/
theorem checkMinInterval_spec {rows : List Row} {task : Option ℕ} {interval timestamp : ℤ}
    (h : checkMinInterval rows task interval timestamp = true) :
    ∀ row ∈ rowsOn task rows, row.timestamp + interval ≤ timestamp := by
  intro row hrow
  obtain ⟨last, hlast, hle⟩ : ∃ last, getLatestSubmission rows task = some last ∧
      row.timestamp ≤ last.timestamp := le_foldl_laterRow (Or.inr hrow)
  rw [checkMinInterval, hlast, decide_eq_true_eq] at h
  omega

namespace LimitSetup

variable {setup : LimitSetup} {r : Request}

/-- A request that no check is overridden for. -/
def Plain (r : Request) : Prop :=
  r.overrideMaxNumber = false ∧ r.overrideMinInterval = false

theorem Plain.checksNumber (h : Plain r) : LimitSetup.checksNumber r = true := by
  unfold LimitSetup.checksNumber
  cases r.kind with
  | submission => simp [h.1]
  | userTest => rfl

theorem Plain.checksInterval (h : Plain r) :
    setup.checksInterval r = !setup.inGrace r.kind r.timestamp := by
  unfold LimitSetup.checksInterval inGrace
  cases r.kind with
  | submission => simp [h.2]
  | userTest => rfl

/-- The limits that concern a request, those of the contest or of its task. -/
def limitsOf (setup : LimitSetup) (kind : RequestKind) : Option ℕ → Limits
  | none => setup.contest kind
  | some task => setup.task kind task

theorem mem_checks_maxNumber (h : Plain r) {task : Option ℕ} {limit : ℕ} :
    .maxNumber task limit ∈ setup.numberChecks r ++ setup.intervalChecks r ↔
      (∀ t ∈ task, r.task = t) ∧ limit ∈ (setup.limitsOf r.kind task).maxNumber := by
  have hinterval : Statement.maxNumber task limit ∉ setup.intervalChecks r := by
    unfold intervalChecks
    split
    · simp
    · simp
  rw [List.mem_append, or_iff_left hinterval, numberChecks, if_pos h.checksNumber]
  cases task with
  | none => simp [limitsOf]
  | some task =>
      simp only [List.mem_append, List.mem_map, Option.mem_toList, Statement.maxNumber.injEq,
        reduceCtorEq, false_and, and_false, exists_false, false_or, Option.some.injEq,
        Option.mem_def, forall_eq', limitsOf]
      constructor
      · rintro ⟨limit', hlimit, rfl, rfl⟩
        exact ⟨rfl, hlimit⟩
      · rintro ⟨rfl, hlimit⟩
        exact ⟨limit, hlimit, rfl, rfl⟩

theorem mem_checks_minInterval (h : Plain r) {task : Option ℕ} {interval : ℤ} :
    .minInterval task interval ∈ setup.numberChecks r ++ setup.intervalChecks r ↔
      setup.inGrace r.kind r.timestamp = false ∧ (∀ t ∈ task, r.task = t) ∧
        interval ∈ (setup.limitsOf r.kind task).minInterval := by
  have hnumber : Statement.minInterval task interval ∉ setup.numberChecks r := by
    unfold numberChecks
    split
    · simp
    · simp
  rw [List.mem_append, or_iff_right hnumber, intervalChecks, h.checksInterval]
  cases hgrace : setup.inGrace r.kind r.timestamp with
  | true => simp
  | false =>
      cases task with
      | none => simp [limitsOf]
      | some task =>
          simp only [Bool.not_false, if_true, List.mem_append, List.mem_map, Option.mem_toList,
            Statement.minInterval.injEq, reduceCtorEq, false_and, and_false, exists_false, false_or,
            Option.some.injEq, Option.mem_def, forall_eq', limitsOf, true_and]
          constructor
          · rintro ⟨interval', hinterval, rfl, rfl⟩
            exact ⟨rfl, hinterval⟩
          · rintro ⟨rfl, hinterval⟩
            exact ⟨interval, hinterval, rfl, rfl⟩

/-- A restricted request checks its limits after it has asked for the lock. -/
theorem statements_cases (hrestricted : setup.participation.unrestricted = false) :
    (setup.statements r = [] ∧ setup.numberChecks r ++ setup.intervalChecks r = []) ∨
      setup.statements r = .tryLock :: (setup.numberChecks r ++ setup.intervalChecks r) := by
  unfold statements
  rw [if_neg (by simp [hrestricted])]
  cases setup.numberChecks r ++ setup.intervalChecks r with
  | nil => exact Or.inl ⟨rfl, rfl⟩
  | cons check rest => exact Or.inr rfl

theorem mem_statements (hrestricted : setup.participation.unrestricted = false)
    {check : Statement} (hne : check ≠ .tryLock) :
    check ∈ setup.statements r ↔ check ∈ setup.numberChecks r ++ setup.intervalChecks r := by
  rcases setup.statements_cases hrestricted (r := r) with ⟨hnil, hchecks⟩ | hcons
  · rw [hnil, hchecks]
  · rw [hcons, List.mem_cons, or_iff_right hne]

end LimitSetup

/-! ## The invariant -/

/-- What a request knows after a statement. -/
def Statement.Holds (grace : ℤ → Bool) (rows : List Row) (r : Request) : Statement → Prop
  | .tryLock => True
  | .maxNumber task limit => (rowsOn task rows).length < limit
  | .minInterval task interval => ∀ row ∈ rowsOn task rows,
      row.timestamp + interval ≤ r.timestamp ∨ grace row.timestamp = true

/-- A request that has made a statement holds the lock and what it has checked, and the rows are
within the limits. -/
structure LimitState.Kept (setup : LimitSetup) (s : LimitState) : Prop where
  plain : ∀ id r left, s.phase id = .running r left → LimitSetup.Plain r
  passed : ∀ id r left, s.phase id = .running r left → ∃ passed,
    setup.statements r = passed ++ left ∧ (passed ≠ [] → s.holder r.kind = some id) ∧
      ∀ statement ∈ passed, statement.Holds (setup.inGrace r.kind) (s.rows r.kind) r
  within : ∀ kind task, WithinLimits (setup.inGrace kind) (setup.limitsOf kind task)
    (rowsOn task (s.rows kind))

/-- A row in the last minutes is apart from all rows. -/
theorem apart_of_grace {setup : LimitSetup} {kind : RequestKind} {a b : Row} (interval : ℤ)
    (h : setup.inGrace kind b.timestamp = true) : Apart (setup.inGrace kind) interval a b := by
  refine ⟨fun _ hfalse => ?_, fun hle hfalse => ?_⟩
  · rw [h] at hfalse
    cases hfalse
  · rw [LimitSetup.inGrace_mono h hle] at hfalse
    cases hfalse

/-- So is a row before the last minutes from the rows that it was checked against. -/
theorem apart_of_checked {setup : LimitSetup} {kind : RequestKind} {a b : Row} {interval : ℤ}
    (hpos : 0 < interval) (hgrace : setup.inGrace kind b.timestamp = false)
    (h : a.timestamp + interval ≤ b.timestamp ∨ setup.inGrace kind a.timestamp = true) :
    Apart (setup.inGrace kind) interval a b := by
  rcases h with hle | hlast
  · refine ⟨fun _ _ => hle, fun hback _ => ?_⟩
    have hgap := hpos
    omega
  · refine ⟨fun hle _ => ?_, fun _ hfalse => ?_⟩
    · rw [LimitSetup.inGrace_mono hlast hle] at hgrace
      cases hgrace
    · rw [hlast] at hfalse
      cases hfalse

namespace LimitState

variable {setup : LimitSetup} {s : LimitState} {id : ℕ} {r : Request}

theorem running_update {phase : Phase} {other : ℕ} {left : List Statement}
    (hne : ∀ r' left', phase ≠ .running r' left')
    (h : (Function.update s.phase id phase) other = .running r left) :
    other ≠ id ∧ s.phase other = .running r left := by
  by_cases hid : other = id
  · subst hid
    rw [Function.update_self] at h
    exact absurd h (hne r left)
  · rw [Function.update_of_ne hid] at h
    exact ⟨hid, h⟩

theorem holder_endTransaction {kind kind' : RequestKind} {other : ℕ} (hne : other ≠ id)
    (h : s.holder kind' = some other) : (s.endTransaction id kind).holder kind' = some other := by
  unfold endTransaction
  dsimp only
  split
  case isFalse => exact h
  case isTrue hholds =>
    have hkind : kind' ≠ kind := by
      rintro rfl
      rw [h, Option.some.injEq] at hholds
      exact hne hholds
    rw [Function.update_of_ne hkind]
    exact h

/-- The end of a transaction that committed nothing. -/
theorem Kept.endTransaction (h : s.Kept setup) (kind : RequestKind) :
    (s.endTransaction id kind).Kept setup := by
  refine ⟨?_, ?_, h.within⟩
  · intro other r left hphase
    obtain ⟨-, hphase⟩ := running_update (by simp) hphase
    exact h.plain other r left hphase
  · intro other r left hphase
    obtain ⟨hne, hphase⟩ := running_update (by simp) hphase
    obtain ⟨passed, hstatements, hholder, hholds⟩ := h.passed other r left hphase
    exact ⟨passed, hstatements, fun hpassed => holder_endTransaction hne (hholder hpassed), hholds⟩

/-- A request that goes on, refused or not, keeps what the others know. -/
theorem Kept.setPhase (h : s.Kept setup) {phase : Phase}
    (hplain : ∀ r left, phase = .running r left → LimitSetup.Plain r)
    (hpassed : ∀ r left, phase = .running r left → ∃ passed,
      setup.statements r = passed ++ left ∧ (passed ≠ [] → s.holder r.kind = some id) ∧
        ∀ statement ∈ passed, statement.Holds (setup.inGrace r.kind) (s.rows r.kind) r) :
    (s.setPhase id phase).Kept setup := by
  refine ⟨?_, ?_, h.within⟩
  · intro other r left hphase
    by_cases hid : other = id
    · subst hid
      simp only [LimitState.setPhase, Function.update_self] at hphase
      exact hplain r left hphase
    · simp only [LimitState.setPhase, Function.update_of_ne hid] at hphase
      exact h.plain other r left hphase
  · intro other r left hphase
    by_cases hid : other = id
    · subst hid
      simp only [LimitState.setPhase, Function.update_self] at hphase
      exact hpassed r left hphase
    · simp only [LimitState.setPhase, Function.update_of_ne hid] at hphase
      exact h.passed other r left hphase

theorem Kept.refuse (h : s.Kept setup) (refusal : Refusal) :
    (s.setPhase id (.refused r refusal)).Kept setup :=
  h.setPhase (by simp) (by simp)

/-- A request that has passed one more statement. -/
theorem Kept.pass (h : s.Kept setup) {statement : Statement} {rest : List Statement}
    (hphase : s.phase id = .running r (statement :: rest)) (hholder : s.holder r.kind = some id)
    (hholds : statement.Holds (setup.inGrace r.kind) (s.rows r.kind) r) :
    (s.setPhase id (.running r rest)).Kept setup := by
  obtain ⟨passed, hstatements, -, hbefore⟩ := h.passed id r _ hphase
  refine h.setPhase ?_ ?_
  · intro r' left heq
    cases heq
    exact h.plain id r _ hphase
  · intro r' left heq
    cases heq
    refine ⟨passed ++ [statement], by rw [hstatements]; simp, fun _ => hholder, ?_⟩
    intro other hother
    rcases List.mem_append.1 hother with hother | hother
    · exact hbefore other hother
    · rw [List.mem_singleton] at hother
      subst hother
      exact hholds

/-- The lock is taken when no other request holds it, so no other request has made a statement. -/
theorem Kept.withHolder (h : s.Kept setup) {kind : RequestKind}
    (hfree : s.holder kind = none ∨ s.holder kind = some id) :
    ({ s with holder := Function.update s.holder kind (some id) } : LimitState).Kept setup := by
  refine ⟨h.plain, ?_, h.within⟩
  intro other r left hphase
  obtain ⟨passed, hstatements, hholder, hholds⟩ := h.passed other r left hphase
  refine ⟨passed, hstatements, fun hpassed => ?_, hholds⟩
  have hother := hholder hpassed
  by_cases hkind : r.kind = kind
  · rw [hkind] at hother ⊢
    rw [hother] at hfree
    rcases hfree with hfree | hfree
    · cases hfree
    · rw [Option.some.injEq] at hfree
      simp [hfree]
  · dsimp only
    rw [Function.update_of_ne hkind]
    exact hother

/-- The first statement is the lock, so a check is made under it. -/
theorem Kept.holder_of_check (h : s.Kept setup)
    (hrestricted : setup.participation.unrestricted = false) {statement : Statement}
    {rest : List Statement} (hphase : s.phase id = .running r (statement :: rest))
    (hne : statement ≠ .tryLock) : s.holder r.kind = some id := by
  obtain ⟨passed, hstatements, hholder, -⟩ := h.passed id r _ hphase
  apply hholder
  rintro rfl
  rcases setup.statements_cases hrestricted (r := r) with ⟨hnil, -⟩ | hcons
  · rw [hnil] at hstatements
    cases hstatements
  · rw [hcons, List.nil_append, List.cons.injEq] at hstatements
    exact hne hstatements.1.symm

theorem Kept.execute (h : s.Kept setup) (hrestricted : setup.participation.unrestricted = false)
    {statement : Statement} {rest : List Statement}
    (hphase : s.phase id = .running r (statement :: rest)) :
    (s.execute id r statement rest).Kept setup := by
  cases statement with
  | tryLock =>
      unfold LimitState.execute
      dsimp only
      split
      case isTrue hfree =>
        have hlocked := h.withHolder hfree
        exact hlocked.pass hphase (Function.update_self _ _ _) trivial
      case isFalse => exact h.refuse _
  | maxNumber task limit =>
      unfold LimitState.execute
      dsimp only
      split
      case isTrue hcheck =>
        have hholder := h.holder_of_check hrestricted hphase (by simp)
        have hfewer : (rowsOn task (s.rows r.kind)).length < limit := of_decide_eq_true hcheck
        exact h.pass hphase hholder hfewer
      case isFalse => exact h.refuse _
  | minInterval task interval =>
      unfold LimitState.execute
      dsimp only
      split
      case isTrue hcheck =>
        have hholder := h.holder_of_check hrestricted hphase (by simp)
        refine h.pass hphase hholder fun row hrow => ?_
        exact Or.inl (checkMinInterval_spec hcheck row hrow)
      case isFalse => exact h.refuse _

/-! ## A commit -/

/-- What a request that is going to commit has checked. -/
theorem Kept.checked (h : s.Kept setup) (hrestricted : setup.participation.unrestricted = false)
    (hphase : s.phase id = .running r []) {statement : Statement} (hne : statement ≠ .tryLock)
    (hmem : statement ∈ setup.numberChecks r ++ setup.intervalChecks r) :
    s.holder r.kind = some id ∧ statement.Holds (setup.inGrace r.kind) (s.rows r.kind) r := by
  obtain ⟨passed, hstatements, hholder, hholds⟩ := h.passed id r [] hphase
  rw [List.append_nil] at hstatements
  subst hstatements
  have hpassed := (setup.mem_statements hrestricted hne).2 hmem
  exact ⟨hholder (List.ne_nil_of_mem hpassed), hholds statement hpassed⟩

/-- The new row is within the limits. -/
theorem Kept.within_addRow (h : s.Kept setup)
    (hrestricted : setup.participation.unrestricted = false)
    (hphase : s.phase id = .running r []) (task : Option ℕ) :
    WithinLimits (setup.inGrace r.kind) (setup.limitsOf r.kind task)
      (rowsOn task (s.rows r.kind ++ [⟨r.task, r.timestamp⟩])) := by
  have hplain := h.plain id r [] hphase
  have hwithin := h.within r.kind task
  rw [rowsOn_append]
  split
  case isFalse =>
    rw [List.append_nil]
    exact hwithin
  case isTrue htask =>
    refine ⟨fun limit hlimit => ?_, fun interval hinterval => ?_⟩
    · have hmem := (@LimitSetup.mem_checks_maxNumber setup r hplain _ _).2 ⟨htask, hlimit⟩
      obtain ⟨-, hholds⟩ := h.checked hrestricted hphase (by simp) hmem
      rw [List.length_append]
      exact hholds
    · refine List.pairwise_append.2 ⟨hwithin.minInterval interval hinterval,
        List.pairwise_singleton _ _, ?_⟩
      intro a ha b hb
      rw [List.mem_singleton] at hb
      subst hb
      cases hgrace : setup.inGrace r.kind r.timestamp with
      | true => exact apart_of_grace interval hgrace
      | false =>
          have hmem := (@LimitSetup.mem_checks_minInterval setup r hplain _ _).2
            ⟨hgrace, htask, hinterval⟩
          obtain ⟨-, hholds⟩ := h.checked hrestricted hphase (by simp) hmem
          exact apart_of_checked ((setup.limitsOf r.kind task).minInterval_pos interval hinterval)
            hgrace (hholds a ha)

/-- The new row changes nothing that another request has checked under the lock. -/
theorem Kept.holds_addRow (h : s.Kept setup)
    (hrestricted : setup.participation.unrestricted = false)
    (hphase : s.phase id = .running r []) {other : ℕ} {r' : Request} (hplain' : LimitSetup.Plain r')
    (hne : other ≠ id) (hholder : s.holder r.kind = some other) (hkind : r'.kind = r.kind)
    {statement : Statement} (hmem : statement ∈ setup.statements r')
    (hholds : statement.Holds (setup.inGrace r.kind) (s.rows r.kind) r') :
    statement.Holds (setup.inGrace r.kind) (s.rows r.kind ++ [⟨r.task, r.timestamp⟩]) r' := by
  have hplain := h.plain id r [] hphase
  -- The committing request has not taken the lock, so no limit concerns it.
  have hunchecked : ∀ check, check ≠ .tryLock →
      check ∉ setup.numberChecks r ++ setup.intervalChecks r := by
    intro check hcheck hmem'
    obtain ⟨hself, -⟩ := h.checked hrestricted hphase hcheck hmem'
    rw [hholder, Option.some.injEq] at hself
    exact hne hself
  cases statement with
  | tryLock => trivial
  | maxNumber task limit =>
      rw [setup.mem_statements hrestricted (by simp),
        LimitSetup.mem_checks_maxNumber hplain'] at hmem
      rw [Statement.Holds, rowsOn_append]
      split
      case isFalse =>
        rw [List.append_nil]
        exact hholds
      case isTrue htask =>
        refine absurd ?_ (hunchecked (.maxNumber task limit) (by simp))
        exact (LimitSetup.mem_checks_maxNumber hplain).2 ⟨htask, hkind ▸ hmem.2⟩
  | minInterval task interval =>
      rw [setup.mem_statements hrestricted (by simp),
        LimitSetup.mem_checks_minInterval hplain'] at hmem
      intro row hrow
      rw [rowsOn_append, List.mem_append] at hrow
      rcases hrow with hold | hnew
      · exact hholds row hold
      · right
        split at hnew
        case isFalse => cases hnew
        case isTrue htask =>
          rw [List.mem_singleton] at hnew
          subst hnew
          by_contra hgrace
          rw [Bool.not_eq_true] at hgrace
          refine absurd ?_ (hunchecked (.minInterval task interval) (by simp))
          exact (LimitSetup.mem_checks_minInterval hplain).2
            ⟨hgrace, htask, hkind ▸ hmem.2.2⟩

theorem Kept.commit (h : s.Kept setup) (hrestricted : setup.participation.unrestricted = false)
    (hphase : s.phase id = .running r []) :
    ((s.addRow r).endTransaction id r.kind).Kept setup := by
  refine ⟨?_, ?_, ?_⟩
  · intro other r' left hrunning
    obtain ⟨-, hrunning⟩ := running_update (by simp) hrunning
    exact h.plain other r' left hrunning
  · intro other r' left hrunning
    obtain ⟨hne, hrunning⟩ := running_update (by simp) hrunning
    obtain ⟨passed, hstatements, hholder, hholds⟩ := h.passed other r' left hrunning
    refine ⟨passed, hstatements, fun hpassed => holder_endTransaction hne (hholder hpassed), ?_⟩
    intro statement hstatement
    show statement.Holds _ (Function.update s.rows r.kind _ r'.kind) r'
    by_cases hkind : r'.kind = r.kind
    · rw [hkind, Function.update_self]
      have hlocked := hholder (List.ne_nil_of_mem hstatement)
      have hmem : statement ∈ setup.statements r' := by
        rw [hstatements]
        exact List.mem_append_left _ hstatement
      rw [hkind] at hlocked
      refine h.holds_addRow hrestricted hphase (h.plain other r' left hrunning) hne hlocked hkind
        hmem ?_
      have hbefore := hholds statement hstatement
      rw [hkind] at hbefore
      exact hbefore
    · rw [Function.update_of_ne hkind]
      exact hholds statement hstatement
  · intro kind task
    show WithinLimits _ _ (rowsOn task (Function.update s.rows r.kind _ kind))
    by_cases hkind : kind = r.kind
    · subst hkind
      rw [Function.update_self]
      exact h.within_addRow hrestricted hphase task
    · rw [Function.update_of_ne hkind]
      exact h.within kind task

/-! ## Runs -/

theorem Kept.step {t : LimitState} {label : LimitLabel} (h : s.Kept setup)
    (hrestricted : setup.participation.unrestricted = false) (hplain : NoOverride s label)
    (hstep : s.step setup label = some t) : t.Kept setup := by
  cases label with
  | start id r =>
      simp only [LimitState.step] at hstep
      split at hstep
      case h_1 =>
        cases hstep
        refine h.setPhase ?_ ?_
        · intro r' left heq
          cases heq
          exact hplain
        · intro r' left heq
          cases heq
          exact ⟨[], rfl, fun hpassed => absurd rfl hpassed, by simp⟩
      case h_2 => cases hstep
  | execute id =>
      simp only [LimitState.step] at hstep
      split at hstep
      case h_1 r statement rest hphase =>
        cases hstep
        exact h.execute hrestricted hphase
      case h_2 => cases hstep
  | commit id =>
      simp only [LimitState.step] at hstep
      split at hstep
      case h_1 r hphase =>
        cases hstep
        exact h.commit hrestricted hphase
      case h_2 => cases hstep
  | rollback id =>
      simp only [LimitState.step] at hstep
      split at hstep
      case h_1 =>
        cases hstep
        exact h.endTransaction _
      case h_2 =>
        cases hstep
        exact h.endTransaction _
      case h_3 => cases hstep

theorem Kept.of_init (h : setup.machine.init s) : s.Kept setup := by
  obtain ⟨hrows, hholder, hphase⟩ := h
  refine ⟨?_, ?_, ?_⟩
  · intro id r left hrunning
    rw [hphase] at hrunning
    cases hrunning
  · intro id r left hrunning
    rw [hphase] at hrunning
    cases hrunning
  · intro kind task
    have hnone : rowsOn task (s.rows kind) = [] := by
      rw [hrows]
      cases task <;> rfl
    rw [hnone]
    exact ⟨fun limit _ => Nat.zero_le limit, fun interval _ => List.Pairwise.nil⟩

end LimitState

/-- A group whose contest lasts a thousand seconds. -/
def thousandSeconds : Group where
  start := 0
  stop := 1000000000
  analysisEnabled := false
  analysisStart := 1000000000
  analysisStop := 1000000000
  perUserTime := none
  start_le_stop := by decide
  stop_le_analysisStart := by decide
  analysisStart_le_analysisStop := by decide
  perUserTime_nonneg := Group.noTime_nonneg

/-- A contest that takes one submission, and a second apart. -/
def oneSubmission : LimitSetup where
  participation :=
    { group := thousandSeconds
      unrestricted := false
      startingTime := some 0
      delayTime := 1000000
      extraTime := 2000000
      gracePeriod := some 60000000
      delayTime_nonneg := by decide
      extraTime_nonneg := by decide }
  started := by decide
  contest _ := ⟨some 1, some 1000000, by decide⟩
  task _ _ := ⟨none, none, by decide⟩

/-- Two submissions at the same time: the second one does not get the lock. -/
def twoAtOnce : List LimitLabel :=
  [.start 1 ⟨.submission, 1, 5000000, false, false⟩, .start 2 ⟨.submission, 2, 5000000, false, false⟩,
    .execute 1, .execute 2, .execute 1, .execute 1, .commit 1, .rollback 2]

def nothingSubmitted : LimitState := ⟨fun _ => [], fun _ => none, fun _ => .waiting⟩

def oneSubmitted : LimitState :=
  (oneSubmission.machine.execVia NoOverride nothingSubmitted twoAtOnce).get (by decide +kernel)

end Server
end ContestManagement
