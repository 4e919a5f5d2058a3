import ContestManagement.Ranking.Acceptance

/-!
# The scores after a restart

`init_store` builds the scores from the stores: first all the submissions, then the
subchanges in the order of their keys, each put in its place by time.  It ends with a mirror
of the stores, so as long as the scores mirror the stores a restart changes nothing.
-/

namespace ContestManagement
namespace Ranking

open Lib

/-! ## The submissions or subchanges up to some keys -/

/-- A partial map on some keys. -/
def upTo {β : Type} (full : String → Option β) (keys : List String) (key : String) : Option β :=
  if key ∈ keys then full key else none

theorem upTo_nil {β : Type} (full : String → Option β) : upTo full [] = fun _ => none := by
  funext key
  simp [upTo]

theorem upTo_concat {β : Type} (full : String → Option β) (keys : List String) (key : String) :
    upTo full (keys ++ [key]) = Function.update (upTo full keys) key (full key) := by
  funext other
  rw [Function.update_apply]
  unfold upTo
  by_cases heq : other = key
  · simp [heq]
  · simp [heq]

theorem upTo_eq_none {β : Type} {full : String → Option β} {keys : List String} {key : String}
    (h : key ∉ keys) : upTo full keys key = none :=
  if_neg h

theorem upTo_keys {β : Type} {d : Dict String β} {keys : List String}
    (h : ∀ key value, d.get? key = some value → key ∈ keys) : upTo d.get? keys = d.get? := by
  funext key
  unfold upTo
  split
  case isTrue => rfl
  case isFalse hnot =>
    symm
    rw [Option.eq_none_iff_forall_ne_some]
    exact fun value hvalue => hnot (h key value hvalue)

theorem mem_sortedItems {β : Type} {d : Dict String β} {item : String × β} :
    item ∈ Scoring.sortedItems d ↔ item ∈ d.items :=
  (List.perm_insertionSort _ _).mem_iff

theorem sortedItems_distinct {β : Type} (d : Dict String β) :
    ((Scoring.sortedItems d).map Prod.fst).Nodup :=
  ((List.perm_insertionSort _ _).map _).nodup_iff.2 d.distinct

/-! ## The mirror that a restart builds -/

/-- The results of two scores are the same. -/
def SameResults : Option Score → Option Score → Prop
  | none, none => True
  | some sc, some sc' => sc'.history = sc.history ∧ sc'.getScore = sc.getScore ∧
      ∀ key, sc'.submissions.get? key = sc.submissions.get? key
  | _, _ => False

/-- Two mirrors of the same submissions and subchanges have the same results. -/
theorem Mirror.sameResults {scoring scoring' : Scoring} {subs : String → Option Submission}
    {chs : String → Option Subchange} {mode : String → Option String}
    (h : Mirror scoring subs chs mode) (h' : Mirror scoring' subs chs mode) (user task : String) :
    SameResults (scoring.get? (user, task)) (scoring'.get? (user, task)) := by
  cases hget : scoring.get? (user, task) with
  | none =>
      cases hget' : scoring'.get? (user, task) with
      | none => trivial
      | some sc' =>
          obtain ⟨⟨key, s, hs⟩, -⟩ := h'.holds user task sc' hget'
          rw [h.absent user task hget key] at hs
          cases hs
  | some sc =>
      obtain ⟨⟨key, s, hs⟩, m, hm, hholds⟩ := h.holds user task sc hget
      cases hget' : scoring'.get? (user, task) with
      | none =>
          rw [h'.absent user task hget' key] at hs
          cases hs
      | some sc' =>
          obtain ⟨-, m', hm', hholds'⟩ := h'.holds user task sc' hget'
          rw [hm, Option.some.injEq] at hm'
          subst hm'
          obtain ⟨-, hhistory, hsubmissions⟩ := hholds.agree hholds'
          refine ⟨hhistory, ?_, hsubmissions⟩
          unfold Score.getScore
          rw [hhistory]

namespace Scoring

variable {stores : Stores}

/-- The scores with all the submissions and no subchange. -/
theorem initSubmissions_mirror (hintegral : Integral stores) :
    ∃ scoring, (stores .submission).items.foldlM
        (fun scoring item => createSubmission stores scoring item.1 item.2) Dict.empty = .ok scoring ∧
      Mirror scoring (stores .submission).get? (fun _ => none) (modeOf stores) := by
  obtain ⟨scoring, hfold, hmirror⟩ := foldlM_ok_of_forall
    (f := fun scoring (item : String × Submission) => createSubmission stores scoring item.1 item.2)
    (P := fun done scoring => Mirror scoring
      (upTo (stores .submission).get? (done.map Prod.fst)) (fun _ => none) (modeOf stores))
    ⟨fun user task _ key => by simp [upTo, subsOf], fun user task sc hsc => by
      rw [Dict.get?_empty] at hsc
      cases hsc⟩
    (by
      intro done item scoring hinit hmirror
      have hmem : item ∈ (stores .submission).items := hinit.subset (by simp)
      have hitem := Dict.mem_items_iff.1 hmem
      have hconsistent := hintegral .submission item.1 item.2 hitem
      simp only [Data.consistent, Bool.and_eq_true] at hconsistent
      obtain ⟨task, htask⟩ := Stores.has_iff.1 hconsistent.1
      obtain ⟨next, hok⟩ := createSubmission_ok htask
      refine ⟨_, hok, ?_⟩
      have hnext := hmirror.createSubmission
        (upTo_eq_none (not_mem_of_initial hinit (stores .submission).distinct))
        (fun k c hc => by cases hc) rfl hok
      rwa [List.map_append, List.map_singleton, upTo_concat, hitem])
  refine ⟨scoring, hfold, ?_⟩
  rwa [upTo_keys fun key value hvalue =>
    List.mem_map.2 ⟨(key, value), Dict.mem_items_iff.2 hvalue, rfl⟩] at hmirror

/-- Every stored change can be used by the score it belongs to. -/
def Usable (stores : Stores) : Prop :=
  ∀ key c s m, (stores .subchange).get? key = some c →
    (stores .submission).get? c.submission = some s → modeOf stores s.task = some m →
    c.NonNeg ∧ Readable m c

/-- A restart from stores whose changes can be used ends, with a mirror of the stores. -/
theorem initStore_usable (hintegral : Integral stores) (husable : Usable stores) :
    ∃ scoring, initStore stores = .ok scoring ∧
      Mirror scoring (stores .submission).get? (stores .subchange).get? (modeOf stores) := by
  obtain ⟨first, hfirst, hmirror⟩ := initSubmissions_mirror hintegral
  obtain ⟨scoring, hfold, hfinal⟩ := foldlM_ok_of_forall
    (f := fun scoring (item : String × Subchange) => createSubchange stores scoring item.1 item.2)
    (P := fun done scoring => Mirror scoring (stores .submission).get?
      (upTo (stores .subchange).get? (done.map Prod.fst)) (modeOf stores))
    (by
      rw [List.map_nil, upTo_nil]
      exact hmirror)
    (by
      intro done item scoring hinit hmirror
      have hmem : item ∈ (stores .subchange).items :=
        mem_sortedItems.1 (hinit.subset (by simp))
      have hitem := Dict.mem_items_iff.1 hmem
      obtain ⟨s, hs⟩ := Stores.has_iff.1 (hintegral .subchange item.1 item.2 hitem)
      have htask := hintegral .submission item.2.submission s hs
      simp only [Data.consistent, Bool.and_eq_true] at htask
      obtain ⟨t, ht⟩ := Stores.has_iff.1 htask.1
      have hmode : modeOf stores s.task = some t.scoreMode := by rw [modeOf, ht, Option.map_some]
      obtain ⟨hnonNeg, hreadable⟩ := husable item.1 item.2 s t.scoreMode hitem hs hmode
      obtain ⟨next, hok⟩ := createSubchange_ok hmirror (fun k => rfl) hs
        fun m' hm' => by
          rw [hmode] at hm'
          exact Option.some.inj hm' ▸ hreadable
      refine ⟨_, hok, ?_⟩
      have hafter := hmirror.createSubchange (fun k => rfl)
        (upTo_eq_none (not_mem_of_initial hinit (sortedItems_distinct _))) hnonNeg hok
      rwa [List.map_append, List.map_singleton, upTo_concat, hitem])
  refine ⟨scoring, ?_, ?_⟩
  · unfold initStore
    rw [hfirst, ok_bind, hfold]
  · rwa [upTo_keys fun key value hvalue =>
      List.mem_map.2 ⟨(key, value), mem_sortedItems.2 (Dict.mem_items_iff.2 hvalue), rfl⟩] at hfinal

/-- A score that replayed the changes could read them. -/
theorem usable_of_mirror {live : Scoring}
    (hlive : Mirror live (stores .submission).get? (stores .subchange).get? (modeOf stores)) :
    Usable stores := by
  intro key c s m hc hs hmode
  obtain ⟨sc, m', -, hm', hholds⟩ := hlive.get?_of_subs hs
  rw [hmode, Option.some.injEq] at hm'
  subst hm'
  have hitem := chsOf_eq_some.2 ⟨hc, s, subsOf_self hs⟩
  have hreadable := hholds.canonical.readable _ ((hholds.changes key c).2 hitem)
  rw [hholds.scoreMode] at hreadable
  exact ⟨hholds.nonNeg key c hitem, hreadable⟩

/-- A restart from stores that some scores mirror ends, with a mirror of the stores. -/
theorem initStore_mirror {live : Scoring} (hintegral : Integral stores)
    (hlive : Mirror live (stores .submission).get? (stores .subchange).get? (modeOf stores)) :
    ∃ scoring, initStore stores = .ok scoring ∧
      Mirror scoring (stores .submission).get? (stores .subchange).get? (modeOf stores) :=
  initStore_usable hintegral (usable_of_mirror hlive)

end Scoring

/-! ## The scores of a run -/

/-- The score of every user and task has the score mode of the stored task, exactly the stored
submissions of the user for the task, and exactly their stored subchanges, in order. -/
structure MirrorsStores (r : State) : Prop where
  absent : ∀ user task, r.scoring.get? (user, task) = none →
    ∀ key s, (r.stores .submission).get? key = some s → ¬ (s.user = user ∧ s.task = task)
  scoreMode : ∀ user task sc, r.scoring.get? (user, task) = some sc →
    ∃ t, (r.stores .task).get? task = some t ∧ sc.scoreMode = t.scoreMode
  submissions : ∀ user task sc, r.scoring.get? (user, task) = some sc → ∀ key s,
    (sc.submissions.get? key).map Scored.submission = some s ↔
      (r.stores .submission).get? key = some s ∧ s.user = user ∧ s.task = task
  changes : ∀ user task sc, r.scoring.get? (user, task) = some sc → ∀ key c,
    (key, c) ∈ sc.changes ↔ (r.stores .subchange).get? key = some c ∧
      ∃ s, (r.stores .submission).get? c.submission = some s ∧ s.user = user ∧ s.task = task
  inOrder : ∀ user task sc, r.scoring.get? (user, task) = some sc → InOrder sc.changes

/-- A restart ends, and leaves every score with the results it had. -/
def RestartAgrees (r : State) : Prop :=
  ∃ scoring, Scoring.initStore r.stores = .ok scoring ∧
    ∀ user task, SameResults (r.scoring.get? (user, task)) (scoring.get? (user, task))

theorem Mirrors.mirrorsStores {r : State} (h : Mirrors r (modeOf r.stores)) : MirrorsStores r where
  absent := by
    rintro user task hget key s hs ⟨rfl, rfl⟩
    have hnone := h.absent s.user s.task hget key
    rw [subsOf_self hs] at hnone
    cases hnone
  scoreMode := by
    intro user task sc hget
    obtain ⟨-, m, hm, hholds⟩ := h.holds user task sc hget
    obtain ⟨t, ht, rfl⟩ := Option.map_eq_some_iff.1 hm
    exact ⟨t, ht, hholds.scoreMode⟩
  submissions := by
    intro user task sc hget key s
    obtain ⟨-, m, -, hholds⟩ := h.holds user task sc hget
    rw [hholds.submissions, subsOf_eq_some]
  changes := by
    intro user task sc hget key c
    obtain ⟨-, m, -, hholds⟩ := h.holds user task sc hget
    rw [hholds.changes, chsOf_eq_some]
    simp only [subsOf_eq_some]
  inOrder := by
    intro user task sc hget
    obtain ⟨-, m, -, hholds⟩ := h.holds user task sc hget
    exact hholds.inOrder

/-- In every run whose operations store only what is harmless, the scores mirror the stores
and a restart changes nothing. -/
theorem scores_mirror_stores {r : State} (h : rankingMachine.ReachableVia Careful r) :
    MirrorsStores r ∧ RestartAgrees r := by
  obtain ⟨hintegral, hmirrors⟩ := mirrors_of_reachableVia h
  obtain ⟨scoring, hinit, hmirror⟩ := Scoring.initStore_mirror hintegral hmirrors
  exact ⟨hmirrors.mirrorsStores, scoring, hinit, fun user task => hmirrors.sameResults hmirror user task⟩

/-- A run with a change delivered late, one sent again with another score, and a deletion. -/
def carefulOps : List Op :=
  [.create .contest "contest" contestData, .create .task "task" (taskData "max"),
    .create .user "user" userData, .create .submission "s1" (submissionData "user" 10),
    .create .submission "s2" (submissionData "user" 12),
    .create .subchange "b" (scoreData "s2" 20 30), .create .subchange "a" (scoreData "s1" 10 40),
    .update .subchange "b" (scoreData "s2" 20 50), .delete .submission "s1"]

def carefulRanking : State :=
  (rankingMachine.execVia Careful State.empty carefulOps).get (by decide +kernel)

theorem scores_mirror_stores_small :
    MirrorsStores carefulRanking ∧ RestartAgrees carefulRanking ∧
      (carefulRanking.scoring.get? ("user", "task")).map Score.history = some [(20, 50)] := by
  have hpath : rankingMachine.Path Careful State.empty carefulRanking :=
    Machine.path_of_execVia (Option.some_get _).symm
  obtain ⟨hmirrors, hrestart⟩ := scores_mirror_stores ⟨State.empty, rfl, hpath⟩
  exact ⟨hmirrors, hrestart, by decide +kernel⟩

/-- The change of the first submission moves behind the other one. -/
def retimedRanking : State :=
  (rankingMachine.exec State.empty
    [.create .contest "contest" contestData, .create .task "task" (taskData "max"),
      .create .user "user" userData, .create .submission "s1" (submissionData "user" 10),
      .create .submission "s2" (submissionData "user" 12),
      .create .subchange "a" (scoreData "s1" 10 40), .create .subchange "b" (scoreData "s2" 20 30),
      .update .subchange "a" (scoreData "s1" 30 40)]).get (by decide +kernel)

/-- The score keeps the moved change in its old place, and a restart gives another history. -/
theorem retimed_change_out_of_order :
    rankingMachine.Reachable retimedRanking ∧ ¬ MirrorsStores retimedRanking ∧
      ¬ RestartAgrees retimedRanking := by
  have hlive : (retimedRanking.scoring.get? ("user", "task")).map
      (fun sc => (sc.changes.map Prod.fst, sc.history)) = some (["a", "b"], [(30, 40)]) := by
    decide +kernel
  have hafter : (Scoring.initStore retimedRanking.stores).toOption.bind
      (fun scoring => (scoring.get? ("user", "task")).map Score.history) =
        some [(20, 30), (30, 40)] := by
    decide +kernel
  obtain ⟨sc, hsc, hresults⟩ := Option.map_eq_some_iff.1 hlive
  rw [Prod.mk.injEq] at hresults
  refine ⟨Machine.reachable_of_exec rfl (Option.some_get _).symm, fun hmirrors => ?_, ?_⟩
  · have horder := hmirrors.inOrder "user" "task" sc hsc
    have hbad : (retimedRanking.scoring.get? ("user", "task")).map
        (fun sc => decide (InOrder sc.changes)) = some false := by
      decide +kernel
    rw [hsc, Option.map_some, Option.some.injEq, decide_eq_false_iff_not] at hbad
    exact hbad horder
  · rintro ⟨scoring, hinit, hsame⟩
    have hresult := hsame "user" "task"
    rw [hinit] at hafter
    obtain ⟨sc', hsc', hhistory⟩ := Option.map_eq_some_iff.1
      (show (scoring.get? ("user", "task")).map Score.history = some [(20, 30), (30, 40)] from hafter)
    rw [hsc, hsc'] at hresult
    rw [hresult.1, hresults.2] at hhistory
    exact absurd hhistory (by decide)

end Ranking
end ContestManagement
