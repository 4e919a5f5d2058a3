import ContestManagement.Ranking.Attempts
import ContestManagement.Ranking.Wiring

/-!
# When an operation that raises leaves everything as it was

`create`, `update` and `merge_list` check the data before they change anything, but their callbacks
read details and score modes that no check looks at.  Where these can be read, no callback raises:
an operation then either ends, or is refused before its first change.

What has to be readable is said of the state before an operation: a subchange in the mode of the
score that it goes to, and, where an update of a submission sets the mode of its score, the changes of
that score in the mode of the task.
-/

namespace ContestManagement
namespace Ranking

open Lib

namespace State

variable {r r' : State} {k : Kind} {key : String}

/-- The scores are wired to the stored submissions. -/
def ScoresWired (r : State) : Prop := Wired r.scoring (r.stores .submission).get?

/-- The callbacks can read an entity that is set under a key. -/
def Fits (r : State) : (k : Kind) → String → Data k → Prop
  | .submission, key, s =>
      ∀ old, (r.stores .submission).get? key = some old → old.user = s.user → old.task = s.task →
        ∀ sc task, r.scoring.get? (s.user, s.task) = some sc →
          (r.stores .task).get? s.task = some task →
            ∀ change ∈ sc.changes, Readable task.scoreMode change.2
  | .subchange, key, c =>
      ∀ s sc, (r.stores .submission).get? c.submission = some s →
        r.scoring.get? (s.user, s.task) = some sc →
          -- An update does not read a change that its score has lost.
          Readable sc.scoreMode c ∨ ∃ old, (r.stores .subchange).get? key = some old ∧
            old.submission = c.submission ∧ ∀ change ∈ sc.changes, change.1 ≠ key
  | _, _, _ => True

/-- The callbacks can read what an operation stores. -/
def FitsOp (r : State) : Op → Prop
  | .create k key data => ∀ e, r.validated k data = .ok e → r.Fits k key e
  | .update k key data => ∀ e, r.validated k data = .ok e → r.Fits k key e
  | .mergeList k data =>
      ∀ entities, r.entitiesOf k data = .ok entities →
        ∀ item ∈ entities.items, r.Fits k item.1 item.2
  | .delete _ _ => True
  | .deleteList _ => True

/-! ## Storing an entity -/

theorem insert_submission (h : r.ScoresWired) {s : Submission}
    (hconsistent : Data.consistent r.stores .submission s = true)
    (hfits : r.Fits .submission key s) :
    ∃ r', r.insert .submission key s = .ok r' ∧ r'.ScoresWired ∧
      r'.stores = r.stores.put .submission ((r.stores .submission).set key s) ∧
      FewerChanges r.scoring r'.scoring := by
  have htask : (r.stores.put .submission ((r.stores .submission).set key s)).has .task s.task =
      true := by
    rw [Stores.has, Stores.put_of_ne r.stores _ (by decide)]
    exact (Bool.and_eq_true_iff.1 hconsistent).1
  have hsubs : ((r.stores.put .submission ((r.stores .submission).set key s)) .submission).get? =
      Function.update (r.stores .submission).get? key (some s) := by
    rw [Stores.put_self, Dict.get?_set_eq]
  obtain ⟨scoring', hok, hwired, hfewer⟩ : ∃ scoring',
      r.insert .submission key s = .ok ⟨r.stores.put .submission
        ((r.stores .submission).set key s), scoring'⟩ ∧
      Wired scoring' (Function.update (r.stores .submission).get? key (some s)) ∧
        FewerChanges r.scoring scoring' := by
    unfold insert
    cases hget : (r.stores .submission).get? key with
    | none =>
        obtain ⟨scoring', hcreate, hwired, hfewer⟩ := Wired.createSubmission h hget htask
        refine ⟨scoring', ?_, hwired, hfewer⟩
        dsimp only
        rw [onCreate, hcreate]
        rfl
    | some old =>
        obtain ⟨scoring', hupdate, hwired, hfewer⟩ := Wired.updateSubmission h hget htask
          fun huser htask' sc task hsc hstored => by
            rw [Stores.put_of_ne r.stores _ (by decide)] at hstored
            exact hfits old hget huser htask' sc task hsc hstored
        refine ⟨scoring', ?_, hwired, hfewer⟩
        dsimp only
        rw [onUpdate, hupdate]
        rfl
  refine ⟨_, hok, ?_, rfl, hfewer⟩
  unfold ScoresWired
  rw [hsubs]
  exact hwired

theorem insert_subchange (h : r.ScoresWired) {c : Subchange}
    (hconsistent : Data.consistent r.stores .subchange c = true)
    (hfits : r.Fits .subchange key c) :
    ∃ r', r.insert .subchange key c = .ok r' ∧ r'.ScoresWired ∧
      r'.stores = r.stores.put .subchange ((r.stores .subchange).set key c) ∧
      SameScores key r.scoring r'.scoring := by
  obtain ⟨s, hs⟩ := Stores.has_iff.1 hconsistent
  have hsame : (r.stores.put .subchange ((r.stores .subchange).set key c)) .submission =
      r.stores .submission := Stores.put_of_ne r.stores _ (by decide)
  have hstores : ∀ key' s', ((r.stores.put .subchange
      ((r.stores .subchange).set key c)) .submission).get? key' = some s' →
        (r.stores .submission).get? key' = some s' := by
    rw [hsame]
    exact fun _ _ hstored => hstored
  have hs' : ((r.stores.put .subchange ((r.stores .subchange).set key c)) .submission).get?
      c.submission = some s := by
    rw [hsame, hs]
  obtain ⟨scoring', hok, hwired, hsameScores⟩ : ∃ scoring',
      r.insert .subchange key c = .ok ⟨r.stores.put .subchange
        ((r.stores .subchange).set key c), scoring'⟩ ∧
      Wired scoring' (r.stores .submission).get? ∧ SameScores key r.scoring scoring' := by
    unfold insert
    cases hget : (r.stores .subchange).get? key with
    | none =>
        obtain ⟨scoring', hcreate, hwired, hsameScores⟩ :=
          Wired.createSubchange h hstores hs' (fun sc hsc => by
            rcases hfits s sc hs hsc with hreadable | ⟨old, hold, -⟩
            · exact hreadable
            · rw [hget] at hold
              cases hold) key
        refine ⟨scoring', ?_, hwired, hsameScores⟩
        dsimp only
        rw [onCreate, hcreate]
        rfl
    | some old =>
        obtain ⟨scoring', hupdate, hwired, hsameScores⟩ :=
          @Wired.updateSubchange _ _ _ key h hstores old c s hs' fun sc hsc => by
            rcases hfits s sc hs hsc with hreadable | ⟨old', hold, habsent⟩
            · exact .inl hreadable
            · rw [hget, Option.some.injEq] at hold
              exact .inr (hold ▸ habsent)
        refine ⟨scoring', ?_, hwired, hsameScores⟩
        dsimp only
        rw [onUpdate, hupdate]
        rfl
  refine ⟨_, hok, ?_, rfl, hsameScores⟩
  unfold ScoresWired
  dsimp only
  rw [hsame]
  exact hwired

/-- An entity that fits is stored, and the others of its kind fit as before. -/
theorem insert_ok (h : r.ScoresWired) {e : Data k} (hconsistent : Data.consistent r.stores k e = true)
    (hfits : r.Fits k key e) :
    ∃ r', r.insert k key e = .ok r' ∧ r'.ScoresWired ∧
      ∀ key' e', key' ≠ key → r.Fits k key' e' → r'.Fits k key' e' := by
  cases k with
  | submission =>
      obtain ⟨r', hok, hwired, hstores, hfewer⟩ := insert_submission h hconsistent hfits
      refine ⟨r', hok, hwired, fun key' s' hne hother => ?_⟩
      intro old hold huser htask sc task hsc hstored change hchange
      rw [hstores, Stores.put_self, Dict.get?_set, if_neg hne] at hold
      rw [hstores, Stores.put_of_ne r.stores _ (by decide)] at hstored
      obtain ⟨sc₀, hsc₀, hchange₀⟩ := hfewer _ sc hsc change hchange
      exact hother old hold huser htask sc₀ task hsc₀ hstored change hchange₀
  | subchange =>
      obtain ⟨r', hok, hwired, hstores, hsame⟩ := insert_subchange h hconsistent hfits
      refine ⟨r', hok, hwired, fun key' c' hne hother => ?_⟩
      intro s sc hs hsc
      rw [hstores, Stores.put_of_ne r.stores _ (by decide)] at hs
      obtain ⟨sc₀, hsc₀, hmode, hchanges⟩ := hsame _ sc hsc
      rw [hmode]
      rcases hother s sc₀ hs hsc₀ with hreadable | ⟨old, hold, hstay, habsent⟩
      · exact .inl hreadable
      · refine .inr ⟨old, ?_, hstay, fun change hchange => ?_⟩
        · rw [hstores, Stores.put_self, Dict.get?_set, if_neg hne, hold]
        · rcases hchanges change hchange with hchange₀ | hkey
          · exact habsent change hchange₀
          · exact hkey ▸ Ne.symm hne
  | _ =>
      -- No callback is told of the other kinds.
      refine ⟨{ r with stores := r.stores.put _ ((r.stores _).set key e) }, ?_, ?_,
        fun _ _ _ _ => trivial⟩
      · unfold insert
        split <;> rfl
      · unfold ScoresWired
        dsimp only
        rw [Stores.put_of_ne r.stores _ (by decide)]
        exact h

/-! ## Deleting an entity -/

/-- A sweep ends when each deletion further down ends. -/
theorem sweep_ok {P : State → Prop} {depth : Nat} (hr : P r)
    (hstep : ∀ n s d key, depth = n + 1 → d ∈ k.depends → P s → s.stores.has d key = true →
      ∃ s', cascade n s d key = .ok s' ∧ P s') :
    ∃ r', sweep depth r k = .ok r' ∧ P r' := by
  cases depth with
  | zero => exact ⟨r, rfl, hr⟩
  | succ n =>
      refine foldlM_ok_of_forall (P := fun _ s => P s) hr ?_
      intro _ d s hinit hs
      have hd : d ∈ k.depends := hinit.subset (by simp)
      -- The items that are still to come are stored: a deletion takes no other key of its store.
      obtain ⟨s', hok, hs', -⟩ := @foldlM_ok_of_forall _ _ _
        (fun (t : State) (item : String × Data d) =>
          if Data.consistent t.stores d item.2 then .ok t else cascade n t d item.1)
        (fun done t => P t ∧ ∀ item ∈ (s.stores d).items, item.1 ∉ done.map Prod.fst →
          (t.stores d).get? item.1 = some item.2)
        (s.stores d).items s
        ⟨hs, fun item hitem _ => Dict.mem_items_iff.1 hitem⟩ (by
          rintro done item t hinit ⟨ht, hleft⟩
          have hmem : item ∈ (s.stores d).items := hinit.subset (by simp)
          have hstored := hleft item hmem (not_mem_of_initial hinit (s.stores d).distinct)
          split
          case isTrue =>
            refine ⟨t, rfl, ht, fun other hother hnot => hleft other hother fun hin => hnot ?_⟩
            rw [List.map_append]
            exact List.mem_append_left _ hin
          case isFalse =>
            obtain ⟨t', hok, ht'⟩ := hstep n t d item.1 rfl hd ht (Stores.has_iff.2 ⟨_, hstored⟩)
            refine ⟨t', hok, ht', fun other hother hnot => ?_⟩
            rw [List.map_append, List.mem_append, not_or] at hnot
            have hne : (d, other.1) ≠ (d, item.1) := by
              intro heq
              have hkeys : other.1 = item.1 := (Prod.ext_iff.1 heq).2
              exact hnot.2 (by simp [hkeys])
            rw [cascade_above n hok d other.1 (le_refl _) hne]
            exact hleft other hother hnot.1)
      exact ⟨s', hok, hs'⟩

theorem without_wired (h : r.ScoresWired) (hne : Kind.submission ≠ k) :
    (r.without k key).ScoresWired := by
  unfold ScoresWired
  rw [without_of_ne hne]
  exact h

/-- Deleting a subchange, also while its submission is being deleted. -/
theorem cascade_subchange_ok {subs : String → Option Submission} (depth : Nat)
    (h : Wired r.scoring subs)
    (hstores : ∀ key s, (r.stores .submission).get? key = some s → subs key = some s)
    (hhas : r.stores.has .subchange key = true) :
    ∃ r', cascade depth r .subchange key = .ok r' ∧ Wired r'.scoring subs ∧
      r'.stores .submission = r.stores .submission := by
  obtain ⟨old, hold⟩ := Stores.has_iff.1 hhas
  have hsweep : sweep depth (r.without .subchange key) .subchange =
      .ok (r.without .subchange key) := by
    cases depth with
    | zero => rfl
    | succ n => rfl
  have hsame : (r.without .subchange key).stores .submission = r.stores .submission :=
    without_of_ne (by decide)
  obtain ⟨scoring', hdelete, hwired, -⟩ :=
    @Wired.deleteSubchange (r.without .subchange key).stores r.scoring subs h
      (by rw [hsame]; exact hstores) key old
  refine ⟨⟨(r.without .subchange key).stores, scoring'⟩, ?_, hwired, hsame⟩
  rw [cascade_eq, hold]
  dsimp only
  rw [hsweep, ok_bind, onDelete]
  show (r.without .subchange key).callback
    (r.scoring.deleteSubchange (r.without .subchange key).stores key old) = _
  rw [hdelete]
  rfl

/-- A submission goes after its subchanges. -/
theorem cascade_submission_ok (depth : Nat) (h : r.ScoresWired) {old : Submission}
    (hold : (r.stores .submission).get? key = some old) :
    ∃ r', cascade depth r .submission key = .ok r' ∧ r'.ScoresWired := by
  -- Until the callback, the scores are wired to the submissions with the one that goes.
  have hshrunk : ∀ key' s, ((r.without .submission key).stores .submission).get? key' = some s →
      (r.stores .submission).get? key' = some s := by
    intro key' s hs
    rw [without_get?_eq, Function.update_apply] at hs
    split at hs
    case isTrue => cases hs
    case isFalse => exact hs
  obtain ⟨mid, hsweep, hwired, hsame⟩ := @sweep_ok (r.without .submission key) .submission
    (fun s => Wired s.scoring (r.stores .submission).get? ∧
      s.stores .submission = (r.without .submission key).stores .submission) depth ⟨h, rfl⟩ (by
      rintro n s d key' - hd ⟨hs, hsame⟩ hhas
      obtain rfl : d = .subchange := List.mem_singleton.1 hd
      obtain ⟨s', hok, hwired, hkept⟩ := cascade_subchange_ok n hs
        (by rw [hsame]; exact hshrunk) hhas
      exact ⟨s', hok, hwired, hkept.trans hsame⟩)
  obtain ⟨scoring', hdelete, hwired', -⟩ := Wired.deleteSubmission hwired hold
  refine ⟨⟨mid.stores, scoring'⟩, ?_, ?_⟩
  · rw [cascade_eq, hold]
    dsimp only
    rw [hsweep, ok_bind, onDelete, hdelete]
    rfl
  · unfold ScoresWired
    dsimp only
    rw [hsame, without_get?_eq]
    exact hwired'

/-- A deletion of a stored entity ends. -/
theorem cascade_wired (depth : Nat) : ∀ {r : State} {k : Kind} {key : String}, r.ScoresWired →
    r.stores.has k key = true → ∃ r', cascade depth r k key = .ok r' ∧ r'.ScoresWired := by
  induction depth using Nat.strong_induction_on with
  | _ depth ih =>
      intro r k key h hhas
      obtain ⟨old, hold⟩ := Stores.has_iff.1 hhas
      by_cases hsubmission : k = .submission
      · subst hsubmission
        exact cascade_submission_ok depth h hold
      by_cases hsubchange : k = .subchange
      · subst hsubchange
        obtain ⟨r', hok, hwired, hsame⟩ := cascade_subchange_ok depth h (fun _ _ hs => hs) hhas
        refine ⟨r', hok, ?_⟩
        unfold ScoresWired
        rw [hsame]
        exact hwired
      -- No callback is told of the other kinds.
      have hsilent : ∀ s : State, s.onDelete k key old = .ok s := by
        intro s
        cases k with
        | submission => exact absurd rfl hsubmission
        | subchange => exact absurd rfl hsubchange
        | _ => rfl
      have hremoved : (r.without k key).ScoresWired := without_wired h (Ne.symm hsubmission)
      obtain ⟨r', hsweep, hwired⟩ := @sweep_ok _ k ScoresWired depth hremoved
        fun n s d key' hn _ hs hhas => ih n (by omega) hs hhas
      refine ⟨r', ?_, hwired⟩
      rw [cascade_eq, hold]
      dsimp only
      rw [hsweep, ok_bind, hsilent]

theorem tryDelete_wired (h : r.ScoresWired) (k : Kind) (key : String) :
    (r.tryDelete k key).state.ScoresWired := by
  cases hhas : r.stores.has k key with
  | true =>
      obtain ⟨r', hok, hwired⟩ := cascade_wired k.level h hhas
      rw [← outcome_tryCascade, Attempt.outcome_eq_ok_iff] at hok
      rw [tryDelete, hok]
      exact hwired
  | false =>
      have hnone : (r.stores k).get? key = none := by simpa [Stores.has] using hhas
      rw [tryDelete, tryCascade, hnone]
      exact h

/-! ## Whole operations -/

/-- An operation ends with the scores wired, or raises before it changes anything. -/
def AllOrNothing (r : State) (a : Attempt Raised State) : Prop :=
  (∃ r', a = .done r' ∧ r'.ScoresWired) ∨ ∃ e, a = .fail r e

/-- An entity that was validated and fits is stored. -/
theorem allOrNothing_validated (h : r.ScoresWired) {data : PyValue}
    (hfits : ∀ e, r.validated k data = .ok e → r.Fits k key e) :
    r.AllOrNothing (.read r (refuseData (r.validated k data)) fun e => r.tryInsert k key e) := by
  cases hvalid : r.validated k data with
  | error message => exact .inr ⟨.invalidData message, rfl⟩
  | ok e =>
      obtain ⟨r', hok, hwired, -⟩ := insert_ok h (consistent_of_validated hvalid) (hfits e hvalid)
      rw [← outcome_tryInsert, Attempt.outcome_eq_ok_iff] at hok
      exact .inl ⟨r', hok, hwired⟩

theorem allOrNothing_create (h : r.ScoresWired) {data : PyValue}
    (hfits : r.FitsOp (.create k key data)) : r.AllOrNothing (r.tryCreate k key data) := by
  unfold tryCreate
  split
  case isTrue => exact .inr ⟨_, rfl⟩
  split
  case isTrue => exact .inr ⟨_, rfl⟩
  case isFalse => exact allOrNothing_validated h hfits

theorem allOrNothing_update (h : r.ScoresWired) {data : PyValue}
    (hfits : r.FitsOp (.update k key data)) : r.AllOrNothing (r.tryUpdate k key data) := by
  unfold tryUpdate
  split
  case isTrue => exact .inr ⟨_, rfl⟩
  case isFalse => exact allOrNothing_validated h hfits

theorem allOrNothing_mergeList (h : r.ScoresWired) {data : PyValue}
    (hfits : r.FitsOp (.mergeList k data)) : r.AllOrNothing (r.tryMergeList k data) := by
  unfold tryMergeList
  cases hentities : r.entitiesOf k data with
  | error message => exact .inr ⟨.invalidData message, rfl⟩
  | ok entities =>
      have hvalidated := entitiesOf_validated hentities
      -- What is stored keeps the entities still to come consistent, and they fit as before.
      obtain ⟨r', hok, hwired, -⟩ := @foldlM_ok_of_forall _ _ _
        (fun (s : State) (item : String × Data k) => s.insert k item.1 item.2)
        (fun done s => s.ScoresWired ∧
          (∀ item ∈ entities.items, Data.consistent s.stores k item.2 = true) ∧
          ∀ item ∈ entities.items, item.1 ∉ done.map Prod.fst → s.Fits k item.1 item.2)
        entities.items r
        ⟨h, fun item hitem => by
            obtain ⟨value, hvalue⟩ := hvalidated item hitem
            exact consistent_of_validated hvalue,
          fun item hitem _ => hfits entities hentities item hitem⟩ (by
          rintro done item s hinit ⟨hs, hconsistent, hleft⟩
          have hmem : item ∈ entities.items := hinit.subset (by simp)
          have hfit := hleft item hmem (not_mem_of_initial hinit entities.distinct)
          obtain ⟨s', hok, hs', hothers⟩ := insert_ok hs (hconsistent item hmem) hfit
          refine ⟨s', hok, hs',
            fun other hother => consistent_of_insert hok (hconsistent other hother),
            fun other hother hnot => ?_⟩
          rw [List.map_append, List.mem_append, not_or] at hnot
          have hne : other.1 ≠ item.1 := fun hkeys => hnot.2 (by simp [hkeys])
          exact hothers other.1 other.2 hne (hleft other hother hnot.1))
      refine .inl ⟨r', ?_, hwired⟩
      rw [← Attempt.outcome_eq_ok_iff]
      show (Attempt.each _ entities.items r).outcome = _
      rw [Attempt.outcome_each]
      simp only [outcome_tryInsert]
      exact hok

end State

/-- An operation that stores entities. -/
def Op.Writes : Op → Prop
  | .create _ _ _ => True
  | .update _ _ _ => True
  | .mergeList _ _ => True
  | .delete _ _ => False
  | .deleteList _ => False

namespace State

variable {r : State}

theorem tryRun_write (h : r.ScoresWired) {op : Op} (hwrites : op.Writes) (hfits : r.FitsOp op) :
    r.AllOrNothing (r.tryRun op) := by
  cases op with
  | create k key data => exact allOrNothing_create h hfits
  | update k key data => exact allOrNothing_update h hfits
  | mergeList k data => exact allOrNothing_mergeList h hfits
  | delete k key => exact hwrites.elim
  | deleteList k => exact hwrites.elim

/-- Whatever an operation does, the scores stay wired. -/
theorem tryRun_wired (h : r.ScoresWired) {op : Op} (hfits : r.FitsOp op) :
    (r.tryRun op).state.ScoresWired := by
  have hwrite : op.Writes → (r.tryRun op).state.ScoresWired := by
    intro hwrites
    rcases tryRun_write h hwrites hfits with ⟨r', hdone, hwired⟩ | ⟨e, hfail⟩
    · rw [hdone]
      exact hwired
    · rw [hfail]
      exact h
  cases op with
  | create k key data => exact hwrite trivial
  | update k key data => exact hwrite trivial
  | mergeList k data => exact hwrite trivial
  | delete k key => exact tryDelete_wired h k key
  | deleteList k =>
      exact Attempt.each_keeps (I := ScoresWired) (fun s key hs => tryDelete_wired hs k key) _ h

end State

theorem scoresWired_empty : State.empty.ScoresWired where
  found _ _ hs := by cases hs
  owned _ _ _ hsc := by cases hsc
  tidy _ _ hsc := by cases hsc

theorem scoresWired_of_reachable {r : State} (h : attemptMachine.ReachableVia State.FitsOp r) :
    r.ScoresWired := by
  refine Machine.ReachableVia.invariant (I := State.ScoresWired) ?_ ?_ h
  · rintro s rfl
    exact scoresWired_empty
  · intro s op t hs hfits hstep
    cases hstep
    exact State.tryRun_wired hs hfits

/-- After operations whose callbacks could read what they stored, one that raises leaves the stores
and the scores as they were. -/
theorem writes_atomic {r : State} (h : attemptMachine.ReachableVia State.FitsOp r) {op : Op}
    (hwrites : op.Writes) (hfits : r.FitsOp op) {e : Raised}
    (hraised : (r.tryRun op).raised = some e) : (r.tryRun op).state = r := by
  rcases State.tryRun_write (scoresWired_of_reachable h) hwrites hfits with
    ⟨r', hdone, -⟩ | ⟨e', hfail⟩
  · rw [hdone] at hraised
    cases hraised
  · rw [hfail]
    rfl

/-! A submission for a task whose subtasks count one by one. -/

def startedRanking : State :=
  (attemptMachine.exec State.empty
    [.create .contest "contest" contestData, .create .task "task" (taskData "max_subtask"),
      .create .user "user" userData]).get rfl

def submittedRanking : State :=
  (startedRanking.tryRun (.create .submission "s1" (submissionData "user" 10))).state

theorem submittedRanking_reachable :
    attemptMachine.ReachableVia State.FitsOp submittedRanking := by
  have hstarted : attemptMachine.ReachableVia State.FitsOp startedRanking := by
    refine ⟨State.empty, rfl, Machine.path_of_exec ?_ (Option.some_get _).symm⟩
    intro op hop r
    simp only [List.mem_cons, List.not_mem_nil, or_false] at hop
    rcases hop with rfl | rfl | rfl
    · exact fun _ _ => trivial
    · exact fun _ _ => trivial
    · exact fun _ _ => trivial
  refine hstarted.extend ((Machine.Path.refl _).step ?_ rfl)
  intro e _ old hold
  have hnone : (startedRanking.stores .submission).get? "s1" = none := by decide +kernel
  rw [hnone] at hold
  cases hold

/-- The second submission is of an unknown user, and the first one is not stored either. -/
theorem writes_atomic_refused :
    let op := Op.mergeList .submission
      (.dict [("s2", submissionData "user" 20), ("s3", submissionData "nobody" 30)])
    (submittedRanking.tryRun op).raised = some (.invalidData "[entity s3] Inconsistent data") ∧
      (submittedRanking.tryRun op).state = submittedRanking := by
  intro op
  have hfits : submittedRanking.FitsOp op := by
    intro entities hentities
    have herror : (submittedRanking.entitiesOf .submission
        (.dict [("s2", submissionData "user" 20), ("s3", submissionData "nobody" 30)])).toBool =
      false := by decide +kernel
    rw [hentities] at herror
    cases herror
  have hraised : (submittedRanking.tryRun op).raised =
      some (.invalidData "[entity s3] Inconsistent data") := by decide +kernel
  exact ⟨hraised, writes_atomic submittedRanking_reachable trivial hfits hraised⟩

/-- A detail that is not a number: the callback raises when the subchange is stored already, and in
the changes of its score. -/
theorem writes_not_atomic :
    let op := Op.create .subchange "s1s" (.dict [("submission", .str "s1"), ("time", .int 10),
      ("score", .float 40), ("extra", .list [.str "n/a"])])
    let left := submittedRanking.tryRun op
    attemptMachine.Reachable submittedRanking ∧ op.Writes ∧
      left.raised =
        some (.crashed (.valueError "could not convert string to float: 'n/a'")) ∧
      submittedRanking.stores.has .subchange "s1s" = false ∧
      left.state.stores.has .subchange "s1s" = true ∧
      (submittedRanking.scoring.get? ("user", "task")).map (fun sc => sc.changes.map Prod.fst) =
        some [] ∧
      (left.state.scoring.get? ("user", "task")).map (fun sc => sc.changes.map Prod.fst) =
        some ["s1s"] ∧
      left.state ≠ submittedRanking := by
  intro op left
  have hreachable : attemptMachine.Reachable submittedRanking := by
    have hexec : attemptMachine.exec State.empty
        [.create .contest "contest" contestData, .create .task "task" (taskData "max_subtask"),
          .create .user "user" userData,
          .create .submission "s1" (submissionData "user" 10)] = some submittedRanking := rfl
    exact Machine.reachable_of_exec rfl hexec
  have hbefore : submittedRanking.stores.has .subchange "s1s" = false := by decide +kernel
  have hafter : left.state.stores.has .subchange "s1s" = true := by decide +kernel
  refine ⟨hreachable, trivial, by decide +kernel, hbefore, hafter, by decide +kernel,
    by decide +kernel, ?_⟩
  intro hsame
  rw [hsame, hbefore] at hafter
  cases hafter

end Ranking
end ContestManagement
