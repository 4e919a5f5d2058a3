import ContestManagement.Ranking.Integrity
import ContestManagement.Ranking.Mirror

/-!
# Which operations keep the mirror

Deletions keep the scores a mirror of the stores, whatever they go through: the callback of a
submission removes its subchanges from the score, in one go.  Creations keep it too, as long
as no score is negative.  Updates keep it when they are harmless:

* an update of a task keeps the score mode, or the task has no submissions: no callback tells
  a score of another mode;
* an update of a submission keeps its user and its task, or it has no subchanges: those of a
  submission that moves are lost to both scores;
* an update of a subchange that stays with its submission leaves it in its place among the
  other changes of the score: it is replaced where it stands.
-/

namespace ContestManagement
namespace Ranking

open Lib

/-- The score modes of the stored tasks. -/
def modeOf (stores : Stores) (task : String) : Option String :=
  ((stores .task).get? task).map Task.scoreMode

/-- The scores mirror the stored submissions and subchanges. -/
def Mirrors (r : State) (mode : String → Option String) : Prop :=
  Mirror r.scoring (r.stores .submission).get? (r.stores .subchange).get? mode

/-- Two submissions are of one user for one task. -/
def sameScore (stores : Stores) (a b : String) : Bool :=
  match (stores .submission).get? a, (stores .submission).get? b with
  | some s, some s' => s.user = s'.user && s.task = s'.task
  | _, _ => false

/-- Storing the entity under the key leaves the scores a mirror of the stores. -/
def Harmless (stores : Stores) : (k : Kind) → String → Data k → Prop
  | .task, key, t => ∀ old ∈ (stores .task).get? key,
      old.scoreMode = t.scoreMode ∨ ∀ item ∈ (stores .submission).items, item.2.task ≠ key
  | .submission, key, s => ∀ old ∈ (stores .submission).get? key,
      (old.user = s.user ∧ old.task = s.task) ∨
        ∀ item ∈ (stores .subchange).items, item.2.submission ≠ key
  | .subchange, key, c => c.NonNeg ∧ ∀ old ∈ (stores .subchange).get? key,
      old.submission = c.submission → ∀ item ∈ (stores .subchange).items, item.1 ≠ key →
        sameScore stores item.2.submission c.submission = true →
          (changeBefore item (key, old) = true ↔ changeBefore item (key, c) = true)
  | _, _, _ => True

/-- Storing the entities one after the other is harmless each time. -/
def HarmlessAll (stores : Stores) (k : Kind) : List (String × Data k) → Prop
  | [] => True
  | item :: rest => Harmless stores k item.1 item.2 ∧
      HarmlessAll (stores.put k ((stores k).set item.1 item.2)) k rest

/-- An operation that stores only what is harmless. -/
def Careful (r : State) : Op → Prop
  | .create k key data =>
      match Data.set k data with
      | .ok e => Harmless r.stores k key e
      | .error _ => True
  | .update k key data =>
      match Data.set k data with
      | .ok e => Harmless r.stores k key e
      | .error _ => True
  | .mergeList k data =>
      match r.entitiesOf k data with
      | .ok entities => HarmlessAll r.stores k entities.items
      | .error _ => True
  | .delete _ _ => True
  | .deleteList _ => True

instance (c : Subchange) : Decidable c.NonNeg :=
  decidable_of_iff ((∀ q ∈ c.score, 0 ≤ q) ∧
    ∀ texts ∈ c.extra, ∀ text ∈ texts, ∀ x ∈ Decimal.read text, x.NonNeg) Iff.rfl

instance (stores : Stores) : (k : Kind) → (key : String) → (e : Data k) →
    Decidable (Harmless stores k key e)
  | .contest, _, _ => isTrue trivial
  | .task, key, t => inferInstanceAs (Decidable (∀ old ∈ (stores .task).get? key,
      old.scoreMode = t.scoreMode ∨ ∀ item ∈ (stores .submission).items, item.2.task ≠ key))
  | .team, _, _ => isTrue trivial
  | .user, _, _ => isTrue trivial
  | .submission, key, s => inferInstanceAs (Decidable (∀ old ∈ (stores .submission).get? key,
      (old.user = s.user ∧ old.task = s.task) ∨
        ∀ item ∈ (stores .subchange).items, item.2.submission ≠ key))
  | .subchange, key, c => inferInstanceAs (Decidable (c.NonNeg ∧
      ∀ old ∈ (stores .subchange).get? key, old.submission = c.submission →
        ∀ item ∈ (stores .subchange).items, item.1 ≠ key →
          sameScore stores item.2.submission c.submission = true →
            (changeBefore item (key, old) = true ↔ changeBefore item (key, c) = true)))

instance decidableHarmlessAll (k : Kind) : (items : List (String × Data k)) → (stores : Stores) →
    Decidable (HarmlessAll stores k items)
  | [], _ => isTrue trivial
  | item :: rest, stores =>
      have := decidableHarmlessAll k rest (stores.put k ((stores k).set item.1 item.2))
      inferInstanceAs (Decidable (Harmless stores k item.1 item.2 ∧
        HarmlessAll (stores.put k ((stores k).set item.1 item.2)) k rest))

instance (r : State) : (op : Op) → Decidable (Careful r op)
  | .create k key data =>
      match h : Data.set k data with
      | .ok e => decidable_of_iff (Harmless r.stores k key e) (by simp [Careful, h])
      | .error _ => isTrue (by simp [Careful, h])
  | .update k key data =>
      match h : Data.set k data with
      | .ok e => decidable_of_iff (Harmless r.stores k key e) (by simp [Careful, h])
      | .error _ => isTrue (by simp [Careful, h])
  | .mergeList k data =>
      match h : r.entitiesOf k data with
      | .ok entities => decidable_of_iff (HarmlessAll r.stores k entities.items) (by simp [Careful, h])
      | .error _ => isTrue (by simp [Careful, h])
  | .delete _ _ => isTrue trivial
  | .deleteList _ => isTrue trivial

namespace State

variable {r r' : State} {k : Kind} {key : String} {mode : String → Option String}

/-! ## Storing an entity -/

theorem set_of_validated {data : PyValue} {e : Data k} (h : r.validated k data = .ok e) :
    Data.set k data = .ok e := by
  unfold validated at h
  rw [bind_eq_ok_iff] at h
  obtain ⟨f, hf, hconsistent⟩ := h
  split at hconsistent
  case isTrue =>
    cases hconsistent
    exact hf
  case isFalse => cases hconsistent

/-- Only the stores of the submissions and the subchanges tell the scores. -/
theorem insert_scoring {e : Data k} (hsubmission : k ≠ .submission) (hsubchange : k ≠ .subchange)
    (h : r.insert k key e = .ok r') : r'.scoring = r.scoring := by
  unfold insert at h
  cases k with
  | submission => exact absurd rfl hsubmission
  | subchange => exact absurd rfl hsubchange
  | _ =>
      dsimp only at h
      split at h <;> cases h <;> rfl

theorem insert_get?_of_ne {e : Data k} {k' : Kind} (hne : k' ≠ k) (h : r.insert k key e = .ok r') :
    r'.stores k' = r.stores k' := by
  rw [insert_stores h, Stores.put_of_ne _ _ hne]

theorem insert_get?_self {e : Data k} (h : r.insert k key e = .ok r') :
    (r'.stores k).get? = Function.update (r.stores k).get? key (some e) := by
  rw [insert_stores h, Stores.put_self, Dict.get?_set_eq]

theorem callback_scoring {scoring : Except PyError Scoring} (h : r.callback scoring = .ok r') :
    scoring = .ok r'.scoring := by
  cases scoring with
  | error e => cases h
  | ok scoring =>
      cases h
      rfl

/-- The stored subchanges belong to stored submissions. -/
theorem submission_of_subchange (hintegral : Integral r.stores) {k : String} {c : Subchange}
    (hc : (r.stores .subchange).get? k = some c) : r.stores.has .submission c.submission = true :=
  hintegral .subchange k c hc

theorem insert_mirrors_submission {s : Submission} (hintegral : Integral r.stores)
    (hmirrors : Mirrors r (modeOf r.stores)) (hharmless : Harmless r.stores .submission key s)
    (h : r.insert .submission key s = .ok r') : Mirrors r' (modeOf r'.stores) := by
  have hself := insert_get?_self h
  have hsubchange : r'.stores .subchange = r.stores .subchange := insert_get?_of_ne (by decide) h
  have htask : r'.stores .task = r.stores .task := insert_get?_of_ne (by decide) h
  have hmode : modeOf r'.stores = modeOf r.stores := by
    unfold modeOf
    rw [htask]
  unfold Mirrors
  rw [hself, hsubchange, hmode]
  have hput : ∀ d, (r.stores.put .submission d) .task = r.stores .task :=
    fun d => Stores.put_of_ne _ _ (by decide)
  unfold insert at h
  cases hget : (r.stores .submission).get? key with
  | none =>
      simp only [hget] at h
      refine Mirror.createSubmission hmirrors hget (fun k c hc heq => ?_) ?_ (callback_scoring h)
      · have hstored := submission_of_subchange hintegral hc
        rw [heq, Stores.has_iff, hget] at hstored
        obtain ⟨_, hnone⟩ := hstored
        cases hnone
      · simp only [hput, modeOf]
  | some old =>
      simp only [hget] at h
      refine Mirror.updateSubmission hmirrors hget ?_ ?_ (callback_scoring h)
      · refine (hharmless old hget).imp id fun hnone k c hc => ?_
        exact hnone (k, c) (Dict.mem_items_iff.2 hc)
      · simp only [hput, modeOf]

theorem insert_mirrors_subchange {c : Subchange} (hintegral : Integral r.stores)
    (hmirrors : Mirrors r (modeOf r.stores)) (hharmless : Harmless r.stores .subchange key c)
    (h : r.insert .subchange key c = .ok r') : Mirrors r' (modeOf r'.stores) := by
  have hself := insert_get?_self h
  have hsubmission : r'.stores .submission = r.stores .submission := insert_get?_of_ne (by decide) h
  have htask : r'.stores .task = r.stores .task := insert_get?_of_ne (by decide) h
  have hmode : modeOf r'.stores = modeOf r.stores := by
    unfold modeOf
    rw [htask]
  unfold Mirrors
  rw [hself, hsubmission, hmode]
  obtain ⟨hnonNeg, hplace⟩ := hharmless
  have hput : ∀ d, (r.stores.put .subchange d) .submission = r.stores .submission :=
    fun d => Stores.put_of_ne _ _ (by decide)
  unfold insert at h
  cases hget : (r.stores .subchange).get? key with
  | none =>
      simp only [hget] at h
      exact Mirror.createSubchange hmirrors (fun k => by simp only [hput]) hget hnonNeg
        (callback_scoring h)
  | some old =>
      simp only [hget] at h
      refine Mirror.updateSubchange hmirrors (fun k => by simp only [hput]) hget ?_ hnonNeg ?_
        (callback_scoring h)
      · have hstored := submission_of_subchange hintegral hget
        simpa only [Stores.has, hput] using hstored
      · rintro hsame s hs k c' hc' hne ⟨s', hs'⟩
        obtain ⟨hstored, huser, htask'⟩ := subsOf_eq_some.1 hs'
        refine hplace old hget hsame (k, c') (Dict.mem_items_iff.2 hc') hne ?_
        simp [sameScore, hstored, hs, huser, htask']

theorem insert_mirrors {e : Data k} (hintegral : Integral r.stores)
    (hmirrors : Mirrors r (modeOf r.stores)) (hharmless : Harmless r.stores k key e)
    (h : r.insert k key e = .ok r') : Mirrors r' (modeOf r'.stores) := by
  cases k with
  | submission => exact insert_mirrors_submission hintegral hmirrors hharmless h
  | subchange => exact insert_mirrors_subchange hintegral hmirrors hharmless h
  | task =>
      have hscoring := insert_scoring (by decide) (by decide) h
      have hsubmission : r'.stores .submission = r.stores .submission :=
        insert_get?_of_ne (by decide) h
      have hsubchange : r'.stores .subchange = r.stores .subchange :=
        insert_get?_of_ne (by decide) h
      unfold Mirrors
      rw [hscoring, hsubmission, hsubchange]
      refine Mirror.congr_mode hmirrors fun k s hs => ?_
      unfold modeOf
      rw [insert_get?_self h, Function.update_apply]
      split
      case isFalse => rfl
      case isTrue htask =>
        -- The task of a stored submission is stored, and keeps its mode.
        have hconsistent := hintegral .submission k s hs
        simp only [Data.consistent, Bool.and_eq_true] at hconsistent
        obtain ⟨old, hold⟩ := Stores.has_iff.1 hconsistent.1
        rw [htask] at hold
        rw [htask, hold]
        rcases hharmless old hold with hsame | hnone
        · simp [hsame]
        · exact absurd htask (hnone (k, s) (Dict.mem_items_iff.2 hs))
  | _ =>
      have hscoring := insert_scoring (by decide) (by decide) h
      have hsubmission : r'.stores .submission = r.stores .submission :=
        insert_get?_of_ne (by decide) h
      have hsubchange : r'.stores .subchange = r.stores .subchange :=
        insert_get?_of_ne (by decide) h
      have htask : r'.stores .task = r.stores .task := insert_get?_of_ne (by decide) h
      unfold Mirrors modeOf
      rw [hscoring, hsubmission, hsubchange, htask]
      exact hmirrors

/-! ## Deleting an entity -/

/-- The scores mirror the stores, and the subchanges belong to stored submissions; tasks and
users may be missing. -/
structure Settled (r : State) (mode : String → Option String) : Prop where
  mirrors : Mirrors r mode
  stored : ∀ k c, (r.stores .subchange).get? k = some c →
    r.stores.has .submission c.submission = true

/-- Deleting a subchange whose submission is stored. -/
theorem cascade_subchange {depth : Nat} (hr : Settled r mode)
    (h : cascade depth r .subchange key = .ok r') : Settled r' mode := by
  obtain ⟨old, mid, hold, hsweep, hdelete⟩ := cascade_onDelete h
  have hmid : mid = r.without .subchange key := by
    cases depth with
    | zero => exact (Except.ok.inj hsweep).symm
    | succ depth => exact (Except.ok.inj hsweep).symm
  subst hmid
  have hstores := onDelete_stores hdelete
  have hsubmission : (r.without .subchange key).stores .submission = r.stores .submission :=
    without_of_ne (by decide)
  have hstored := hr.stored key old hold
  constructor
  · unfold Mirrors
    rw [hstores, hsubmission, without_get?_eq]
    refine Mirror.deleteSubchange hr.mirrors
      (fun k => by rw [hsubmission]) hold ?_ (callback_scoring hdelete)
    simpa only [Stores.has, hsubmission] using hstored
  · intro k c hc
    rw [hstores, without_get?_eq, Function.update_apply] at hc
    split at hc
    case isTrue => cases hc
    case isFalse => simpa only [hstores, Stores.has, hsubmission] using hr.stored k c hc

/-- The subchanges of a deleted submission go away without a word to the scores. -/
theorem sweepStore_subchanges {depth : Nat} {mid : State} (hr : Settled r mode)
    (h : sweepStore depth (r.without .submission key) .subchange = .ok mid) :
    mid.scoring = r.scoring ∧
      mid.stores .submission = (r.without .submission key).stores .submission ∧
      ∀ k, (mid.stores .subchange).get? k = (r.stores .subchange).get? k ∨
        ((mid.stores .subchange).get? k = none ∧
          ∀ c, (r.stores .subchange).get? k = some c → c.submission = key) := by
  have hsubchange : (r.without .submission key).stores .subchange = r.stores .subchange :=
    without_of_ne (by decide)
  refine foldlM_ok_induction (P := fun _ t => t.scoring = r.scoring ∧
      t.stores .submission = (r.without .submission key).stores .submission ∧
      ∀ k, (t.stores .subchange).get? k = (r.stores .subchange).get? k ∨
        ((t.stores .subchange).get? k = none ∧
          ∀ c, (r.stores .subchange).get? k = some c → c.submission = key)) h
    ⟨rfl, rfl, fun k => Or.inl (by rw [hsubchange])⟩ ?_
  rintro done item t t' hinit ⟨hscoring, hsubmission, hless⟩ hitem
  split at hitem
  case isTrue =>
    cases hitem
    exact ⟨hscoring, hsubmission, hless⟩
  case isFalse hinconsistent =>
    have hmem : item ∈ ((r.without .submission key).stores .subchange).items :=
      hinit.subset (by simp)
    rw [hsubchange] at hmem
    have hitemstored := Dict.mem_items_iff.1 hmem
    -- The submission of the item was stored, so it is the deleted one.
    have hdeleted : item.2.submission = key := by
      by_contra hne
      have hhas := hr.stored item.1 item.2 hitemstored
      refine hinconsistent ?_
      show t.stores.has .submission item.2.submission = true
      unfold Stores.has at hhas ⊢
      rw [hsubmission, without_get?_eq, Function.update_apply, if_neg hne]
      exact hhas
    obtain ⟨old, mid', hold, hsweep, hdelete⟩ := cascade_onDelete hitem
    have hmid' : mid' = t.without .subchange item.1 := by
      cases depth with
      | zero => exact (Except.ok.inj hsweep).symm
      | succ depth => exact (Except.ok.inj hsweep).symm
    subst hmid'
    have hstores := onDelete_stores hdelete
    have hkeep : (t.without .subchange item.1).stores .submission = t.stores .submission :=
      without_of_ne (by decide)
    have hold' : old = item.2 := by
      rcases hless item.1 with hsame | ⟨hgone, -⟩
      · rw [hold, hitemstored] at hsame
        exact Option.some.inj hsame
      · rw [hgone] at hold
        cases hold
    subst hold'
    refine ⟨?_, by rw [hstores, hkeep, hsubmission], fun k => ?_⟩
    · have hcallback := callback_scoring hdelete
      unfold Scoring.deleteSubchange at hcallback
      rw [if_pos] at hcallback
      · rw [← Except.ok.inj hcallback]
        exact hscoring
      · unfold Stores.has
        rw [hkeep, hsubmission, hdeleted, without_get?_self]
        rfl
    · rw [hstores, without_get?_eq, Function.update_apply]
      split
      case isTrue heq =>
        refine Or.inr ⟨rfl, fun c hc => ?_⟩
        rw [heq, hitemstored, Option.some.injEq] at hc
        rw [← hc, hdeleted]
      case isFalse => exact hless k

theorem cascade_submission {depth : Nat} (hr : Settled r mode)
    (h : cascade (depth + 1) r .submission key = .ok r') : Settled r' mode := by
  obtain ⟨old, mid, hold, hsweep, hdelete⟩ := cascade_onDelete h
  have hstore : sweepStore depth (r.without .submission key) .subchange = .ok mid := by
    have hfold : (Kind.submission.depends).foldlM (sweepStore depth) (r.without .submission key) =
        .ok mid := hsweep
    simpa [Kind.depends] using hfold
  obtain ⟨hscoring, hsubmission, hless⟩ := sweepStore_subchanges hr hstore
  have hstores := onDelete_stores hdelete
  have hstored : ∀ k c, (mid.stores .subchange).get? k = some c →
      mid.stores.has .submission c.submission = true := by
    refine sweepStore_consistent ?_ hstore
    intro s s' o hcascade
    exact ⟨cascade_noneDangling depth (Nat.zero_le _) hcascade, cascade_removes hcascade,
      fun k => cascade_shrinks depth hcascade .subchange k⟩
  constructor
  · have hcallback : r.scoring.deleteSubmission key old = .ok r'.scoring := by
      rw [← hscoring]
      exact callback_scoring hdelete
    have hmirror := Mirror.deleteSubmission hr.mirrors hold hcallback
    unfold Mirrors
    rw [hstores, hsubmission, without_get?_eq]
    refine hmirror.congr_chs fun user task => ?_
    funext k
    rcases hless k with hsame | ⟨hgone, hdeleted⟩
    · unfold chsOf
      rw [hsame]
    · -- What went away belonged to the deleted submission, which no score has any more.
      have hleft : chsOf (Function.update (r.stores .submission).get? key none)
          (mid.stores .subchange).get? user task k = none := by
        unfold chsOf
        rw [hgone]
        rfl
      rw [hleft]
      symm
      rw [Option.eq_none_iff_forall_ne_some]
      intro c hc
      obtain ⟨hstored', s, hs⟩ := chsOf_eq_some.1 hc
      rw [hdeleted c hstored', subsOf_erase, Function.update_self] at hs
      cases hs
  · intro k c hc
    rw [hstores] at hc ⊢
    exact hstored k c hc

theorem cascade_settled (depth : Nat) :
    ∀ {r r' : State} {k : Kind} {key : String}, k ≠ .subchange → k.level ≤ depth →
      Settled r mode → cascade depth r k key = .ok r' → Settled r' mode := by
  induction depth with
  | zero =>
      intro r r' k key hk hlevel
      cases k <;> simp [Kind.level] at hlevel hk
  | succ depth ih =>
      intro r r' k key hk hlevel hr h
      by_cases hsubmission : k = .submission
      · subst hsubmission
        exact cascade_submission hr h
      · obtain ⟨old, mid, hold, hsweep, hdelete⟩ := cascade_onDelete h
        have hmid : r' = mid := by
          cases k with
          | submission => exact absurd rfl hsubmission
          | subchange => exact absurd rfl hk
          | _ => exact (Except.ok.inj hdelete).symm
        subst hmid
        refine sweep_induction (P := fun s => Settled s mode) hsweep ?_ ?_
        · have hsub : (r.without k key).stores .submission = r.stores .submission :=
            without_of_ne (Ne.symm hsubmission)
          have hchs : (r.without k key).stores .subchange = r.stores .subchange :=
            without_of_ne (Ne.symm hk)
          constructor
          · unfold Mirrors
            rw [hsub, hchs]
            exact hr.mirrors
          · intro k' c hc
            rw [hchs] at hc
            simpa only [Stores.has, hsub] using hr.stored k' c hc
        · intro n s d item s' hn hd hs _ hcascade
          cases hn
          have hlt := Kind.level_lt_of_mem_depends hd
          have hd' : d ≠ .subchange := by
            rintro rfl
            cases k <;> simp [Kind.depends] at hd hsubmission
          exact ih hd' (by omega) hs hcascade

theorem delete_mirrors (hintegral : Integral r.stores) (hmirrors : Mirrors r (modeOf r.stores))
    (h : r.delete k key = .ok r') : Mirrors r' (modeOf r'.stores) := by
  have hsettled : Settled r (modeOf r.stores) :=
    ⟨hmirrors, fun k c hc => submission_of_subchange hintegral hc⟩
  have hafter : Settled r' (modeOf r.stores) := by
    by_cases hk : k = .subchange
    · subst hk
      exact cascade_subchange hsettled h
    · exact cascade_settled k.level hk (le_refl _) hsettled h
  refine Mirror.congr_mode hafter.mirrors fun k' s hs => ?_
  -- The tasks of the submissions that are left are left too.
  have hconsistent := delete_integral hintegral h .submission k' s hs
  simp only [Data.consistent, Bool.and_eq_true] at hconsistent
  obtain ⟨task, htask⟩ := Stores.has_iff.1 hconsistent.1
  unfold modeOf
  rcases cascade_shrinks k.level h .task s.task with hsame | hgone
  · rw [hsame]
  · rw [hgone] at htask
    cases htask

/-! ## Whole runs -/

theorem insertAll_mirrors {items : List (String × Data k)} (hintegral : Integral r.stores)
    (hmirrors : Mirrors r (modeOf r.stores))
    (hconsistent : ∀ item ∈ items, Data.consistent r.stores k item.2 = true)
    (hharmless : HarmlessAll r.stores k items)
    (h : items.foldlM (fun r item => r.insert k item.1 item.2) r = .ok r') :
    Mirrors r' (modeOf r'.stores) := by
  induction items generalizing r with
  | nil =>
      cases h
      exact hmirrors
  | cons item rest ih =>
      rw [List.foldlM_cons, bind_eq_ok_iff] at h
      obtain ⟨next, hnext, hrest⟩ := h
      obtain ⟨hfirst, hmore⟩ := hharmless
      rw [← insert_stores hnext] at hmore
      refine ih (integral_insert hintegral (hconsistent item (by simp)) hnext)
        (insert_mirrors hintegral hmirrors hfirst hnext) (fun other hother => ?_) hmore hrest
      exact consistent_of_insert hnext (hconsistent other (by simp [hother]))

theorem run_mirrors {op : Op} (hintegral : Integral r.stores)
    (hmirrors : Mirrors r (modeOf r.stores)) (hcareful : Careful r op) (h : r.run op = .ok r') :
    Mirrors r' (modeOf r'.stores) := by
  cases op with
  | create k key data =>
      obtain ⟨-, e, he, hinsert⟩ := create_ok h
      simp only [Careful, set_of_validated he] at hcareful
      exact insert_mirrors hintegral hmirrors hcareful hinsert
  | update k key data =>
      obtain ⟨-, e, he, hinsert⟩ := update_ok h
      simp only [Careful, set_of_validated he] at hcareful
      exact insert_mirrors hintegral hmirrors hcareful hinsert
  | mergeList k data =>
      obtain ⟨entities, hentities, hinsert⟩ := mergeList_ok h
      simp only [Careful, hentities] at hcareful
      refine insertAll_mirrors hintegral hmirrors (fun item hitem => ?_) hcareful hinsert
      obtain ⟨value, hvalue⟩ := entitiesOf_validated hentities item hitem
      exact consistent_of_validated hvalue
  | delete k key => exact delete_mirrors hintegral hmirrors h
  | deleteList k =>
      have hall : Integral r'.stores ∧ Mirrors r' (modeOf r'.stores) := by
        refine foldlM_ok_induction
          (P := fun _ s => Integral s.stores ∧ Mirrors s (modeOf s.stores)) h
          ⟨hintegral, hmirrors⟩ ?_
        rintro _ key s s' - ⟨hs, hm⟩ hstep
        exact ⟨delete_integral hs hstep, delete_mirrors hs hm hstep⟩
      exact hall.2

end State

/-- Careful operations keep the scores a mirror of the stores. -/
theorem mirrors_of_reachableVia {r : State} (h : rankingMachine.ReachableVia Careful r) :
    Integral r.stores ∧ Mirrors r (modeOf r.stores) := by
  refine Machine.ReachableVia.invariant
    (I := fun r => Integral r.stores ∧ Mirrors r (modeOf r.stores)) ?_ ?_ h
  · rintro s rfl
    refine ⟨integral_empty, fun user task _ key => rfl, fun user task sc hsc => ?_⟩
    simp [State.empty, Dict.get?_empty] at hsc
  · rintro s op t ⟨hintegral, hmirrors⟩ hcareful hstep
    rcases State.step_cases hstep with hrun | rfl
    · exact ⟨State.run_integral hintegral hrun, State.run_mirrors hintegral hmirrors hcareful hrun⟩
    · exact ⟨hintegral, hmirrors⟩

end Ranking
end ContestManagement
