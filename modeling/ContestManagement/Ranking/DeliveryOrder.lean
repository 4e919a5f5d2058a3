import ContestManagement.Ranking.Restart

/-!
# Scores do not depend on the order of delivery

The subchanges of a ranking arrive in any order and may be sent again with other scores.  As
long as each key keeps its user, task, submission and time, every such operation is harmless,
so the scores mirror the stores at the end, and what they mirror is the same for two
deliveries that end with the same submissions and subchanges.
-/

namespace ContestManagement
namespace Ranking

open Lib

/-- Storing the entity again under its key changes nothing but results. -/
def KeepsIdentity (stores : Stores) : (k : Kind) → String → Data k → Prop
  | .submission, key, s => ∀ old ∈ (stores .submission).get? key,
      old.user = s.user ∧ old.task = s.task ∧ old.time = s.time
  | .subchange, key, c => c.NonNeg ∧ ∀ old ∈ (stores .subchange).get? key,
      old.submission = c.submission ∧ old.time = c.time
  | _, _, _ => False

/-- A create or update call on the store of the submissions or of the subchanges. -/
def Delivery (r : State) : Op → Prop
  | .create k key data =>
      match Data.set k data with
      | .ok e => KeepsIdentity r.stores k key e
      | .error _ => True
  | .update k key data =>
      match Data.set k data with
      | .ok e => KeepsIdentity r.stores k key e
      | .error _ => True
  | _ => False

instance (stores : Stores) : (k : Kind) → (key : String) → (e : Data k) →
    Decidable (KeepsIdentity stores k key e)
  | .submission, key, s => inferInstanceAs (Decidable (∀ old ∈ (stores .submission).get? key,
      old.user = s.user ∧ old.task = s.task ∧ old.time = s.time))
  | .subchange, key, c => inferInstanceAs (Decidable (c.NonNeg ∧
      ∀ old ∈ (stores .subchange).get? key, old.submission = c.submission ∧ old.time = c.time))
  | .contest, _, _ => isFalse id
  | .task, _, _ => isFalse id
  | .team, _, _ => isFalse id
  | .user, _, _ => isFalse id

instance (r : State) : (op : Op) → Decidable (Delivery r op)
  | .create k key data =>
      match h : Data.set k data with
      | .ok e => decidable_of_iff (KeepsIdentity r.stores k key e) (by simp [Delivery, h])
      | .error _ => isTrue (by simp [Delivery, h])
  | .update k key data =>
      match h : Data.set k data with
      | .ok e => decidable_of_iff (KeepsIdentity r.stores k key e) (by simp [Delivery, h])
      | .error _ => isTrue (by simp [Delivery, h])
  | .mergeList _ _ => isFalse id
  | .delete _ _ => isFalse id
  | .deleteList _ => isFalse id

/-- The tasks and users are there, and no submission or subchange yet. -/
structure Prepared (r : State) : Prop where
  integral : Integral r.stores
  submissions : r.stores .submission = Dict.empty
  subchanges : r.stores .subchange = Dict.empty
  scoring : r.scoring = Dict.empty

theorem KeepsIdentity.harmless {stores : Stores} {k : Kind} {key : String} {e : Data k}
    (h : KeepsIdentity stores k key e) : Harmless stores k key e := by
  cases k with
  | submission =>
      intro old hold
      exact Or.inl ⟨(h old hold).1, (h old hold).2.1⟩
  | subchange =>
      refine ⟨h.1, fun old hold _ item _ _ _ => ?_⟩
      unfold changeBefore
      rw [(h.2 old hold).2]
  | _ => exact h.elim

theorem Delivery.careful {r : State} {op : Op} (h : Delivery r op) : Careful r op := by
  cases op with
  | create k key data =>
      simp only [Delivery] at h
      simp only [Careful]
      cases he : Data.set k data with
      | ok e =>
          simp only [he] at h ⊢
          exact h.harmless
      | error e => trivial
  | update k key data =>
      simp only [Delivery] at h
      simp only [Careful]
      cases he : Data.set k data with
      | ok e =>
          simp only [he] at h ⊢
          exact h.harmless
      | error e => trivial
  | _ => exact h.elim

/-- A delivery leaves the tasks alone. -/
theorem Delivery.run_tasks {r r' : State} {op : Op} (h : Delivery r op) (hrun : r.run op = .ok r') :
    r'.stores .task = r.stores .task := by
  have hkind : ∀ {k : Kind} {key : String} {data : PyValue} {e : Data k},
      (match Data.set k data with
        | .ok e => KeepsIdentity r.stores k key e
        | .error _ => True) → r.validated k data = .ok e → r.insert k key e = .ok r' →
      r'.stores .task = r.stores .task := by
    intro k key data e hkeeps hvalidated hinsert
    rw [State.set_of_validated hvalidated] at hkeeps
    refine State.insert_get?_of_ne ?_ hinsert
    rintro rfl
    exact hkeeps
  cases op with
  | create k key data =>
      obtain ⟨-, e, he, hinsert⟩ := State.create_ok hrun
      exact hkind h he hinsert
  | update k key data =>
      obtain ⟨-, e, he, hinsert⟩ := State.update_ok hrun
      exact hkind h he hinsert
  | _ => exact h.elim

theorem delivery_mirrors {start r : State} (hstart : Prepared start)
    (h : rankingMachine.Path Delivery start r) :
    Mirrors r (modeOf r.stores) ∧ r.stores .task = start.stores .task := by
  have hall : Integral r.stores ∧ Mirrors r (modeOf r.stores) ∧
      r.stores .task = start.stores .task := by
    refine h.preserves (I := fun r => Integral r.stores ∧ Mirrors r (modeOf r.stores) ∧
      r.stores .task = start.stores .task) ?_ ⟨hstart.integral, ?_, rfl⟩
    · rintro s op t ⟨hintegral, hmirrors, htasks⟩ hdelivery hstep
      rcases State.step_cases hstep with hrun | rfl
      · exact ⟨State.run_integral hintegral hrun,
          State.run_mirrors hintegral hmirrors hdelivery.careful hrun,
          (hdelivery.run_tasks hrun).trans htasks⟩
      · exact ⟨hintegral, hmirrors, htasks⟩
    · unfold Mirrors
      rw [hstart.submissions, hstart.subchanges, hstart.scoring]
      refine ⟨fun user task _ key => rfl, fun user task sc hsc => ?_⟩
      rw [Dict.get?_empty] at hsc
      cases hsc
  exact hall.2

/-! ## Folding the final subchanges -/

/-- The stored submissions of a user for a task. -/
def finalSubmissions (stores : Stores) (user task : String) : List (String × Submission) :=
  (stores .submission).items.filter fun item => item.2.user = user ∧ item.2.task = task

/-- The stored subchanges of a user for a task, in the order of their time and key. -/
def finalChanges (stores : Stores) (user task : String) : List (String × Subchange) :=
  ((stores .subchange).items.filter fun item =>
    (subsOf (stores .submission).get? user task item.2.submission).isSome).insertionSort
      fun a b => changeRank a ≤ changeRank b

/-- The final subchanges appended one after the other, from an empty score to which the
submissions are added. -/
def foldFinal (stores : Stores) (user task : String) : Except PyError Score := do
  let scoreMode ← Scoring.scoreModeOf stores task
  let start := (finalSubmissions stores user task).foldl
    (fun sc item => sc.createSubmission item.1 item.2) (Score.new scoreMode)
  start.appendChanges (finalChanges stores user task)

theorem mem_finalChanges {stores : Stores} {user task key : String} {c : Subchange} :
    (key, c) ∈ finalChanges stores user task ↔
      chsOf (stores .submission).get? (stores .subchange).get? user task key = some c := by
  unfold finalChanges
  rw [(List.perm_insertionSort _ _).mem_iff, List.mem_filter, chsOf_eq_some,
    Option.isSome_iff_exists, ← Dict.mem_items_iff]

theorem inOrder_finalChanges (stores : Stores) (user task : String) :
    InOrder (finalChanges stores user task) := by
  have hsorted : (finalChanges stores user task).Pairwise fun a b => changeRank a ≤ changeRank b := by
    have htotal : Std.Total fun a b : String × Subchange => changeRank a ≤ changeRank b :=
      ⟨fun a b => le_total _ _⟩
    have htrans : IsTrans (String × Subchange) fun a b => changeRank a ≤ changeRank b :=
      ⟨fun a b c => le_trans⟩
    exact List.pairwise_insertionSort _ _
  have hdistinct : ((finalChanges stores user task).map Prod.fst).Nodup := by
    refine ((List.perm_insertionSort _ _).map _).nodup_iff.2 ?_
    exact (stores .subchange).distinct.sublist (List.filter_sublist.map _)
  rw [List.Nodup, List.pairwise_map] at hdistinct
  -- Changes with distinct keys have distinct ranks.
  refine (hsorted.and hdistinct).imp ?_
  rintro a b ⟨hle, hne⟩
  rw [changeBefore_iff]
  refine lt_of_le_of_ne hle fun heq => hne ?_
  have hpair : (a.2.time, a.1) = (b.2.time, b.1) := toLex.injective heq
  exact (Prod.ext_iff.1 hpair).2

/-- A score with submissions added to it that no change has reached. -/
theorem get?_createSubmissions (items : List (String × Submission)) (mode : String)
    (hdistinct : (items.map Prod.fst).Nodup) :
    let sc := items.foldl (fun sc item => sc.createSubmission item.1 item.2) (Score.new mode)
    sc.scoreMode = mode ∧ sc.released = [] ∧ sc.last = none ∧ sc.history = [] ∧
      ∀ key, sc.submissions.get? key = (items.lookup key).map Scored.unscored := by
  induction items using List.reverseRecOn with
  | nil => exact ⟨rfl, rfl, rfl, rfl, fun key => rfl⟩
  | append_singleton items item ih =>
      rw [List.map_append, List.nodup_append] at hdistinct
      obtain ⟨hmode, hreleased, hlast, hhistory, hget⟩ := ih hdistinct.1
      simp only [List.foldl_append, List.foldl_cons, List.foldl_nil]
      refine ⟨hmode, hreleased, hlast, hhistory, fun key => ?_⟩
      show (Dict.set _ item.1 (Scored.unscored item.2)).get? key = _
      rw [Dict.get?_set, hget, List.lookup_append]
      split
      case isTrue heq =>
        have hnone : items.lookup key = none := by
          rw [List.lookup_eq_none_iff]
          intro other hother
          have hne : other.1 ≠ key := fun h =>
            hdistinct.2.2 other.1 (List.mem_map.2 ⟨other, hother, rfl⟩) item.1 (by simp) (by
              rw [h, heq])
          simpa using Ne.symm hne
        rw [hnone, Dict.lookup_item, if_pos heq]
        rfl
      case isFalse hne => simp [Dict.lookup_item, hne]

theorem nodup_finalSubmissions (stores : Stores) (user task : String) :
    ((finalSubmissions stores user task).map Prod.fst).Nodup :=
  (stores .submission).distinct.sublist (List.filter_sublist.map _)

theorem mem_finalSubmissions {stores : Stores} {user task key : String} {s : Submission} :
    (key, s) ∈ finalSubmissions stores user task ↔
      subsOf (stores .submission).get? user task key = some s := by
  unfold finalSubmissions
  rw [List.mem_filter, subsOf_eq_some, ← Dict.mem_items_iff, decide_eq_true_eq]

/-- The mode of a stored score is that of its task, and its changes are the final ones. -/
theorem Mirrors.final {r : State} (h : Mirrors r (modeOf r.stores)) {user task : String}
    {sc : Score} (hget : r.scoring.get? (user, task) = some sc) :
    ∃ m, Scoring.scoreModeOf r.stores task = .ok m ∧
      Holds sc (subsOf (r.stores .submission).get? user task)
        (chsOf (r.stores .submission).get? (r.stores .subchange).get? user task) m ∧
      sc.changes = finalChanges r.stores user task := by
  obtain ⟨-, m, hm, hholds⟩ := h.holds user task sc hget
  refine ⟨m, ?_, hholds, ?_⟩
  · obtain ⟨t, ht, rfl⟩ := Option.map_eq_some_iff.1 hm
    unfold Scoring.scoreModeOf
    rw [ht]
  · refine hholds.inOrder.eq_of_mem_iff (inOrder_finalChanges _ _ _) fun x => ?_
    rw [hholds.changes x.1 x.2, mem_finalChanges]

/-- The score of a mirror is the fold of the final subchanges. -/
theorem Mirrors.foldFinal {r : State} (h : Mirrors r (modeOf r.stores)) {user task : String}
    {sc : Score} (hget : r.scoring.get? (user, task) = some sc) :
    ∃ folded, Ranking.foldFinal r.stores user task = .ok folded ∧
      SameResults (some sc) (some folded) := by
  obtain ⟨m, hmode, hholds, hchanges⟩ := h.final hget
  have hdistinct := nodup_finalSubmissions r.stores user task
  obtain ⟨hstartMode, hreleased, hlast, hhistory, hstart⟩ :=
    get?_createSubmissions (finalSubmissions r.stores user task) m hdistinct
  have hlookup : ∀ key, (finalSubmissions r.stores user task).lookup key =
      subsOf (r.stores .submission).get? user task key := by
    intro key
    refine Option.ext fun s => ?_
    rw [Dict.lookup_eq_some_iff hdistinct, mem_finalSubmissions]
  set start := (finalSubmissions r.stores user task).foldl
    (fun sc item => sc.createSubmission item.1 item.2) (Score.new m) with hstartdef
  have hcleared : ∀ key, start.submissions.get? key = sc.cleared.submissions.get? key := by
    intro key
    rw [hstart, hlookup, ← hholds.submissions]
    simp [Score.cleared, Dict.get?_mapValues, Option.map_map, Function.comp_def]
  have hpad : Score.Padded sc.cleared start := by
    refine ⟨fun key s hs => ?_, fun key s hs => ?_, hreleased, hlast, hhistory, ?_⟩
    · rw [hcleared, hs]
    · exact Or.inl (by rw [← hcleared, hs])
    · rw [hstartMode]
      exact hholds.scoreMode.symm
  obtain ⟨folded, hfolded, hfinal⟩ := hpad.appendChanges (Score.sound_cleared sc)
    hholds.changes_nonNeg hholds.canonical
  refine ⟨folded, ?_, hfinal.history, ?_, fun key => ?_⟩
  · unfold Ranking.foldFinal
    rw [hmode, ok_bind, ← hchanges]
    exact hfolded
  · unfold Score.getScore
    rw [hfinal.history]
  · -- The fold has no submission besides those of the score.
    cases hkey : sc.submissions.get? key with
    | some s => exact hfinal.kept key s hkey
    | none =>
        have hdata := Score.get?_of_cleared (Score.appendChanges_cleared hfolded) key
        rw [hcleared, Score.cleared, Dict.get?_mapValues, hkey] at hdata
        exact Option.map_eq_none_iff.1 hdata

/-- A ranking with a task and a user. -/
def preparedRanking : State :=
  (rankingMachine.exec State.empty
    [.create .contest "contest" contestData, .create .task "task" (taskData "max_tokened_last"),
      .create .user "user" userData]).get (by decide +kernel)

/-- Two submissions delivered in the order of their time. -/
def inTimeRanking : State :=
  (rankingMachine.execVia Delivery preparedRanking
    [.create .submission "s1" (submissionData "user" 10),
      .create .subchange "a" (scoreData "s1" 10 40),
      .create .submission "s2" (submissionData "user" 20),
      .create .subchange "b" (scoreData "s2" 20 30)]).get (by decide +kernel)

/-- The same submissions the other way round, the first one with another score at first. -/
def resentRanking : State :=
  (rankingMachine.execVia Delivery preparedRanking
    [.create .submission "s2" (submissionData "user" 20),
      .create .subchange "b" (scoreData "s2" 20 30),
      .create .submission "s1" (submissionData "user" 10),
      .create .subchange "a" (scoreData "s1" 10 90),
      .update .subchange "a" (scoreData "s1" 10 40)]).get (by decide +kernel)

theorem prepared_preparedRanking : Prepared preparedRanking where
  integral := integral_of_reachable
    (Machine.reachable_of_exec rfl (Option.some_get (by decide +kernel)).symm)
  submissions := by decide +kernel
  subchanges := by decide +kernel
  scoring := by decide +kernel

end Ranking
end ContestManagement
