import ContestManagement.Ranking.Viewers

/-!
# Viewers follow every run

Between two operations a page shows what the stores have.  In the middle of a deletion it still shows
the entities that are out of their stores and whose own events come later: these are pending.  Each
deletion further down leaves the pending ones as they are.
-/

namespace ContestManagement
namespace Ranking

open Lib

/-- The page that shows all of a ranking. -/
def View.of (r : State) : View :=
  ⟨fun k key => k.watched && r.stores.has k key, r.scoring.getScore⟩

/-- A page in the middle of an operation: no pending entity is stored, and the users and the tasks of
the submissions are stored or pending. -/
structure Viewed (start : View) (pending : Kind → String → Bool) (w : Watched) : Prop where
  page : Page start pending (w.state.stores .submission).get? w
  gone : ∀ k key, pending k key = true → w.state.stores.has k key = false
  shown : ∀ key s, (w.state.stores .submission).get? key = some s →
    Shown pending w.state.stores s

/-- Nothing is pending. -/
def nothingPending : Kind → String → Bool := fun _ _ => false

theorem View.during_nothingPending (r : State) : View.during nothingPending r = View.of r := by
  unfold View.during View.of nothingPending
  simp only [Bool.or_false]

/-- What is shown depends on which of the shown entities are stored. -/
theorem View.during_congr {pending pending' : Kind → String → Bool} {r r' : State}
    (hhas : ∀ k key, k.watched = true →
      (r.stores.has k key || pending k key) = (r'.stores.has k key || pending' k key))
    (hscoring : r.scoring = r'.scoring) : View.during pending r = View.during pending' r' := by
  unfold View.during
  rw [hscoring]
  congr 1
  funext k key
  cases hwatched : k.watched with
  | false => rfl
  | true => rw [hhas k key hwatched]

theorem View.setHas_apply (v : View) (k k' : Kind) (key key' : String) (b : Bool) :
    v.setHas k key b k' key' = if (k', key') = (k, key) then b else v.has k' key' := by
  unfold setHas
  by_cases hk : k' = k
  · subst hk
    rw [Function.update_self, Function.update_apply]
    by_cases hkey : key' = key
    · rw [if_pos hkey, if_pos (by rw [hkey])]
    · rw [if_neg hkey, if_neg fun heq => hkey (Prod.ext_iff.1 heq).2]
  · rw [Function.update_of_ne hk, if_neg fun heq => hk (Prod.ext_iff.1 heq).1]

theorem Page.withStores {start : View} {pending pending' : Kind → String → Bool}
    {subs : String → Option Submission} {w : Watched} {stores : Stores}
    (h : Page start pending subs w)
    (hhas : ∀ k key, k.watched = true →
      (w.state.stores.has k key || pending k key) = (stores.has k key || pending' k key)) :
    Page start pending' subs (w.withStores stores) := by
  refine ⟨?_, h.populated⟩
  have hview : View.during pending w.state = View.during pending' (w.withStores stores).state :=
    View.during_congr hhas rfl
  rw [← hview]
  exact h.follows

namespace Stores

theorem has_put_of_ne {stores : Stores} {k k' : Kind} (d : Dict String (Data k)) (hne : k' ≠ k)
    (key : String) : (stores.put k d).has k' key = stores.has k' key := by
  rw [has, has, put_of_ne stores d hne]

theorem has_put_set {stores : Stores} {k k' : Kind} {key key' : String} (e : Data k) :
    (stores.put k ((stores k).set key e)).has k' key' =
      (stores.has k' key' || decide ((k', key') = (k, key))) := by
  by_cases hkey : (k', key') = (k, key)
  · cases hkey
    rw [has, put_self, Dict.get?_set, if_pos rfl, decide_eq_true rfl, Bool.or_true]
    rfl
  · rw [has, get?_put_set stores hkey, decide_eq_false hkey, Bool.or_false, has]

end Stores

theorem Shown.mono {pending : Kind → String → Bool} {stores stores' : Stores} {s : Submission}
    (h : Shown pending stores s)
    (hmore : ∀ k key, k.watched = true → stores.has k key = true → stores'.has k key = true) :
    Shown pending stores' s := by
  have hkept : ∀ k key, k.watched = true → (stores.has k key || pending k key) = true →
      (stores'.has k key || pending k key) = true := by
    intro k key hwatched hknown
    rcases Bool.or_eq_true_iff.1 hknown with hstored | hpending
    · rw [hmore k key hwatched hstored, Bool.true_or]
    · rw [hpending, Bool.or_true]
  exact ⟨hkept .user s.user rfl h.user, hkept .task s.task rfl h.task⟩

theorem Shown.of_consistent {pending : Kind → String → Bool} {stores : Stores} {s : Submission}
    (h : Data.consistent stores .submission s = true) : Shown pending stores s := by
  obtain ⟨htask, huser⟩ := Bool.and_eq_true_iff.1 h
  exact ⟨Bool.or_eq_true_iff.2 (.inl huser), Bool.or_eq_true_iff.2 (.inl htask)⟩

namespace Viewed

variable {start : View} {pending : Kind → String → Bool} {w w' : Watched} {key : String}

/-- A user or a task to which no stored submission refers has no score. -/
theorem unscored (h : Viewed start pending w) (k : Kind) (key : String)
    (huser : k = .user → ∀ o s, (w.state.stores .submission).get? o = some s → s.user ≠ key)
    (htask : k = .task → ∀ o s, (w.state.stores .submission).get? o = some s → s.task ≠ key) :
    (View.during pending w.state).Unscored k key := by
  funext user task
  cases k with
  | user =>
      show (if user = key then 0 else w.state.scoring.getScore user task) =
        w.state.scoring.getScore user task
      split
      case isTrue heq =>
        rw [h.page.populated.getScore_eq_zero]
        intro o s hs hsame
        exact absurd (hsame.trans heq) (huser rfl o s hs)
      case isFalse => rfl
  | task =>
      show (if task = key then 0 else w.state.scoring.getScore user task) =
        w.state.scoring.getScore user task
      split
      case isTrue heq =>
        rw [h.page.populated.getScore_eq_zero]
        rintro o s hs - hsame
        exact htask rfl o s hs (hsame.trans heq)
      case isFalse => rfl
  | _ => rfl

/-! ## Storing an entity -/

theorem onCreate_watched {k : Kind} (hk : k.watched = true) (w : Watched) (key : String) (e : Data k) :
    w.onCreate k key e = .ok (w.send (.create k key)) := by
  cases k with
  | submission => cases hk
  | subchange => cases hk
  | _ => rfl

theorem onUpdate_watched {k : Kind} (hk : k.watched = true) (w : Watched) (key : String)
    (old e : Data k) : w.onUpdate k key old e = .ok (w.send (.update k key)) := by
  cases k with
  | submission => cases hk
  | subchange => cases hk
  | _ => rfl

theorem onDelete_watched {k : Kind} (hk : k.watched = true) (w : Watched) (key : String)
    (old : Data k) : w.onDelete k key old = .ok (w.send (.delete k key)) := by
  cases k with
  | submission => cases hk
  | subchange => cases hk
  | _ => rfl

theorem submission_ne_of_watched {k : Kind} (hk : k.watched = true) : Kind.submission ≠ k := by
  rintro rfl
  cases hk

/-- A contest, a task, a team or a user is stored. -/
theorem insert_watched {k : Kind} (hk : k.watched = true) {e : Data k}
    (h : Viewed start nothingPending w) (hok : w.insert k key e = .ok w') :
    Viewed start nothingPending w' := by
  have hsubs := Stores.put_of_ne w.state.stores ((w.state.stores k).set key e)
    (submission_ne_of_watched hk)
  have hmore : ∀ k' key', k'.watched = true → w.state.stores.has k' key' = true →
      (w.state.stores.put k ((w.state.stores k).set key e)).has k' key' = true := by
    intro k' key' _ hhas
    rw [Stores.has_put_set, hhas, Bool.true_or]
  -- Apart from the event, this is what is left to show.
  have hviewed : ∀ sent : List Event,
      start.Follows sent
        (View.during nothingPending
          ⟨w.state.stores.put k ((w.state.stores k).set key e), w.state.scoring⟩) →
      Viewed start nothingPending
        ⟨⟨w.state.stores.put k ((w.state.stores k).set key e), w.state.scoring⟩, sent⟩ := by
    intro sent hfollows
    refine ⟨⟨hfollows, ?_⟩, fun k' key' hpending => ?_, fun o s hs => ?_⟩
    · show Populated _ ((w.state.stores.put k _) .submission).get?
      rw [hsubs]
      exact h.page.populated
    · cases hpending
    · have hold : (w.state.stores .submission).get? o = some s := by
        rw [← hsubs]
        exact hs
      exact (h.shown o s hold).mono hmore
  unfold Watched.insert at hok
  cases hget : (w.state.stores k).get? key with
  | none =>
      rw [hget] at hok
      dsimp only at hok
      rw [onCreate_watched hk] at hok
      obtain rfl := Except.ok.inj hok
      apply hviewed
      have hnew : w.state.stores.has k key = false := by rw [Stores.has, hget]; rfl
      have hunscored := h.unscored k key
        (by
          rintro rfl o s hs rfl
          have hstored := (h.shown o s hs).user
          rw [hnew] at hstored
          cases hstored)
        (by
          rintro rfl o s hs rfl
          have hstored := (h.shown o s hs).task
          rw [hnew] at hstored
          cases hstored)
      have hexpects : (View.during nothingPending w.state).Expects (.create k key) := by
        show (k.watched && (w.state.stores.has k key || false)) = false
        rw [hnew, Bool.or_false, Bool.and_false]
      have hnext := h.page.follows.next hexpects
      have hview : (View.during nothingPending w.state).apply (.create k key) =
          View.during nothingPending
            ⟨w.state.stores.put k ((w.state.stores k).set key e), w.state.scoring⟩ := by
        show View.mk _ _ = View.mk _ _
        rw [hunscored]
        congr 1
        funext k' key'
        rw [View.setHas_apply, Stores.has_put_set]
        split
        case isTrue heq =>
          cases heq
          rw [decide_eq_true rfl, hk, Bool.or_true]
          rfl
        case isFalse hne =>
          rw [decide_eq_false hne, Bool.or_false]
          rfl
      rw [hview] at hnext
      exact hnext
  | some old =>
      rw [hget] at hok
      dsimp only at hok
      rw [onUpdate_watched hk] at hok
      obtain rfl := Except.ok.inj hok
      apply hviewed
      have hhas : w.state.stores.has k key = true := by rw [Stores.has, hget]; rfl
      have hexpects : (View.during nothingPending w.state).Expects (.update k key) := by
        show (k.watched && (w.state.stores.has k key || false)) = true
        rw [hhas, hk]
        rfl
      have hnext := h.page.follows.next hexpects
      have hview : (View.during nothingPending w.state).apply (.update k key) =
          View.during nothingPending
            ⟨w.state.stores.put k ((w.state.stores k).set key e), w.state.scoring⟩ := by
        show View.during nothingPending w.state = _
        refine View.during_congr (fun k' key' _ => ?_) rfl
        show _ = ((w.state.stores.put k ((w.state.stores k).set key e)).has k' key' || _)
        rw [Stores.has_put_set]
        by_cases heq : (k', key') = (k, key)
        · cases heq
          rw [hhas, Bool.true_or, Bool.true_or, Bool.true_or]
        · rw [decide_eq_false heq, Bool.or_false]
      rw [hview] at hnext
      exact hnext

/-- A submission or a subchange is in its store before the callbacks are called. -/
theorem stored_page {k : Kind} (hk : k.watched = false) (key : String) (e : Data k)
    (h : Viewed start nothingPending w) :
    Page start nothingPending (w.state.stores .submission).get?
      (w.withStores (w.state.stores.put k ((w.state.stores k).set key e))) := by
  apply h.page.withStores
  intro k' key' hwatched
  have hne : k' ≠ k := by
    rintro rfl
    rw [hk] at hwatched
    cases hwatched
  rw [Stores.has_put_of_ne _ hne]

theorem insert_submission {s : Submission} (h : Viewed start nothingPending w)
    (hconsistent : Data.consistent w.state.stores .submission s = true)
    (hok : w.insert .submission key s = .ok w') : Viewed start nothingPending w' := by
  have hpage := stored_page (k := .submission) rfl key s h
  have hstate := eq_ok_of_map (Watched.state_insert (w := w) (k := .submission) key s) hok
  have hmore : ∀ k' key', k'.watched = true → w.state.stores.has k' key' = true →
      (w.state.stores.put .submission ((w.state.stores .submission).set key s)).has k' key' =
        true := by
    intro k' key' _ hhas
    rw [Stores.has_put_set, hhas, Bool.true_or]
  have hshown : Shown nothingPending
      (w.state.stores.put .submission ((w.state.stores .submission).set key s)) s :=
    (Shown.of_consistent hconsistent).mono hmore
  have hnext : Page start nothingPending
      (Function.update (w.state.stores .submission).get? key (some s)) w' := by
    unfold Watched.insert at hok
    cases hget : (w.state.stores .submission).get? key with
    | none =>
        rw [hget] at hok
        exact hpage.createSubmission hget hshown (mapError_eq_ok.1 hok)
    | some old =>
        rw [hget] at hok
        exact hpage.updateSubmission hget ((h.shown key old hget).mono hmore) hshown
          (mapError_eq_ok.1 hok)
  have hstores := State.insert_stores hstate
  have hsubs : (w'.state.stores .submission).get? =
      Function.update (w.state.stores .submission).get? key (some s) := by
    rw [hstores, Stores.put_self, Dict.get?_set_eq]
  refine ⟨hsubs ▸ hnext, fun k' key' hpending => ?_, fun o s' hs' => ?_⟩
  · cases hpending
  · rw [hstores]
    rw [hsubs, Function.update_apply] at hs'
    split at hs'
    case isTrue =>
      cases hs'
      exact hshown
    case isFalse => exact (h.shown o s' hs').mono hmore

theorem insert_subchange {c : Subchange} (h : Viewed start nothingPending w)
    (hok : w.insert .subchange key c = .ok w') : Viewed start nothingPending w' := by
  have hpage := stored_page (k := .subchange) rfl key c h
  have hstores := State.insert_stores
    (eq_ok_of_map (Watched.state_insert (w := w) (k := .subchange) key c) hok)
  have hsame := Stores.put_of_ne w.state.stores ((w.state.stores .subchange).set key c)
    (show Kind.submission ≠ .subchange by decide)
  have hshown : ∀ o s, ((w.state.stores.put .subchange
      ((w.state.stores .subchange).set key c)) .submission).get? o = some s →
        Shown nothingPending (w.state.stores.put .subchange
          ((w.state.stores .subchange).set key c)) s := by
    intro o s hs
    rw [hsame] at hs
    apply (h.shown o s hs).mono
    intro k' key' _ hhas
    rw [Stores.has_put_set, hhas, Bool.true_or]
  have hnext : Page start nothingPending (w.state.stores .submission).get? w' := by
    unfold Watched.insert at hok
    cases hget : (w.state.stores .subchange).get? key with
    | none =>
        rw [hget] at hok
        exact hpage.createSubchange (hshown _) (mapError_eq_ok.1 hok)
    | some old =>
        rw [hget] at hok
        exact hpage.updateSubchange hshown (mapError_eq_ok.1 hok)
  refine ⟨?_, fun k' key' hpending => ?_, ?_⟩
  · rw [hstores, hsame]
    exact hnext
  · cases hpending
  · rw [hstores]
    exact hshown

theorem insert {k : Kind} {e : Data k} (h : Viewed start nothingPending w)
    (hconsistent : Data.consistent w.state.stores k e = true) (hok : w.insert k key e = .ok w') :
    Viewed start nothingPending w' := by
  cases k with
  | submission => exact h.insert_submission hconsistent hok
  | subchange => exact h.insert_subchange hok
  | _ => exact insert_watched rfl h hok

/-! ## Deleting an entity -/

/-- A subchange is deleted, perhaps with its submission out of its store. -/
theorem cascade_subchange {subs : String → Option Submission} (depth : Nat)
    (h : Page start pending subs w)
    (hshown : ∀ o s, (w.state.stores .submission).get? o = some s →
      Shown pending w.state.stores s)
    (hok : watchedLayer.cascade depth w .subchange key = .ok w') : Page start pending subs w' := by
  obtain ⟨old, mid, -, hsweep, hdelete⟩ := Layer.cascade_onDelete hok
  have hmid : mid = w.without .subchange key := by
    cases depth with
    | zero => exact (Except.ok.inj hsweep).symm
    | succ depth => exact (Except.ok.inj hsweep).symm
  subst hmid
  have hkind : ∀ k : Kind, k.watched = true → k ≠ .subchange := by
    rintro k hwatched rfl
    cases hwatched
  have hpage : Page start pending subs (w.without .subchange key) := by
    apply h.withStores
    intro k' key' hwatched
    rw [Stores.has_put_of_ne _ (hkind k' hwatched)]
  refine hpage.deleteSubchange (fun s hs => ?_) (mapError_eq_ok.1 hdelete)
  have hs' : (w.state.stores .submission).get? old.submission = some s := by
    rw [← Stores.put_of_ne w.state.stores ((w.state.stores .subchange).erase key)
      (show Kind.submission ≠ .subchange by decide)]
    exact hs
  apply (hshown _ s hs').mono
  intro k' key' hwatched hhas
  show (w.state.stores.put _ _).has k' key' = true
  rw [Stores.has_put_of_ne _ (hkind k' hwatched), hhas]

/-- A deletion stores nothing. -/
theorem gone_of_cascade {depth : Nat} {k k' : Kind} {key' : String}
    (hok : watchedLayer.cascade depth w k key = .ok w') (hgone : w.state.stores.has k' key' = false) :
    w'.state.stores.has k' key' = false := by
  have hshrinks :=
    State.cascade_shrinks depth (eq_ok_of_map (watchedLayer.state_cascade depth w k key) hok)
  rw [Stores.has] at hgone ⊢
  rcases hshrinks k' key' with hsame | hnone
  · rw [hsame, hgone]
  · rw [hnone]
    rfl

/-- A state that has what another one has, but for a submission and for the subchanges. -/
def WithoutSubmission (key : String) (r v : State) : Prop :=
  ∀ k key', k ≠ .subchange → (v.stores k).get? key' = ((r.without .submission key).stores k).get? key'

theorem WithoutSubmission.get?_eq {r v : State} (h : WithoutSubmission key r v) :
    (v.stores .submission).get? = Function.update (r.stores .submission).get? key none := by
  rw [← State.without_get?_eq]
  exact funext fun o => h .submission o (by decide)

theorem WithoutSubmission.has_eq {r v : State} (h : WithoutSubmission key r v) {k : Kind}
    (hk : k.watched = true) (key' : String) : v.stores.has k key' = r.stores.has k key' := by
  have hne : k ≠ .submission := by
    rintro rfl
    cases hk
  have hne' : k ≠ .subchange := by
    rintro rfl
    cases hk
  rw [Stores.has, h k key' hne', State.without_of_ne hne, Stores.has]

theorem WithoutSubmission.shown {v : State} (hleft : WithoutSubmission key w.state v)
    (h : Viewed start pending w) {o : String} {s : Submission}
    (hs : (w.state.stores .submission).get? o = some s) : Shown pending v.stores s := by
  apply (h.shown o s hs).mono
  intro k key' hwatched hhas
  rw [hleft.has_eq hwatched, hhas]

theorem WithoutSubmission.get?_of {r v : State} (h : WithoutSubmission key r v) {o : String}
    {s : Submission} (hs : (v.stores .submission).get? o = some s) :
    (r.stores .submission).get? o = some s := by
  rw [h.get?_eq, Function.update_apply] at hs
  split at hs
  case isTrue => cases hs
  case isFalse => exact hs

/-- A submission is deleted after its subchanges, which go while it is in its score still. -/
theorem cascade_submission {depth : Nat} (h : Viewed start pending w)
    (hok : watchedLayer.cascade (depth + 1) w .submission key = .ok w') : Viewed start pending w' := by
  obtain ⟨old, mid, hold, hsweep, hdelete⟩ := Layer.cascade_onDelete hok
  have hmid : Page start pending (w.state.stores .submission).get? mid ∧
      WithoutSubmission key w.state mid.state := by
    refine Layer.sweep_induction (P := fun v =>
      Page start pending (w.state.stores .submission).get? v ∧
        WithoutSubmission key w.state v.state) hsweep ⟨?_, fun _ _ _ => rfl⟩ ?_
    · apply h.page.withStores
      intro k' key' hwatched
      have hk' : k' ≠ .submission := by
        rintro rfl
        cases hwatched
      rw [Stores.has_put_of_ne _ hk']
    · rintro n v d item v' - hd ⟨hv, hleft⟩ hcascade
      obtain rfl : d = .subchange := List.mem_singleton.1 hd
      have hstate := eq_ok_of_map (watchedLayer.state_cascade n v .subchange item.1) hcascade
      refine ⟨cascade_subchange n hv (fun o s hs => hleft.shown h (hleft.get?_of hs)) hcascade, ?_⟩
      intro k key' hk
      rw [State.cascade_above n hstate k key' (Nat.zero_le _)
        (fun heq => hk (Prod.ext_iff.1 heq).1), hleft k key' hk]
  obtain ⟨hpage, hleft⟩ := hmid
  have hdelete' := mapError_eq_ok.1 hdelete
  have hnext := hpage.deleteSubmission hold (hleft.shown h hold) hdelete'
  have hstores : w'.state.stores = mid.state.stores :=
    (Watched.deleteSubmission_changes key old).stores hdelete'
  refine ⟨?_, fun k key' hpending => gone_of_cascade hok (h.gone k key' hpending), fun o s hs => ?_⟩
  · rw [hstores, hleft.get?_eq]
    exact hnext
  · rw [hstores] at hs ⊢
    exact hleft.shown h (hleft.get?_of hs)

/-! An entity that a page shows is pending while what depends on it is deleted. -/

/-- The entity of a key is pending, too. -/
def andPending (pending : Kind → String → Bool) (k : Kind) (key : String) : Kind → String → Bool :=
  fun k' key' => pending k' key' || decide ((k', key') = (k, key))

theorem andPending_of_ne {k k' : Kind} {key' : String} (hne : (k', key') ≠ (k, key)) :
    andPending pending k key k' key' = pending k' key' := by
  rw [andPending, decide_eq_false hne, Bool.or_false]

/-- An entity comes out of its store. -/
theorem without_viewed {k : Kind} (hk : k.watched = true) (h : Viewed start pending w) 
    (hstored : w.state.stores.has k key = true) :
    Viewed start (andPending pending k key) (w.without k key) := by
  have hhas : ∀ k' key', (w.state.stores.has k' key' || pending k' key') =
      ((w.state.without k key).stores.has k' key' || andPending pending k key k' key') := by
    intro k' key'
    by_cases hkey : (k', key') = (k, key)
    · cases hkey
      rw [hstored, andPending, decide_eq_true rfl, Bool.or_true, Bool.or_true, Bool.true_or]
    · rw [andPending_of_ne hkey, Stores.has, ← State.without_get?_of_ne hkey, Stores.has]
  have hsubs : (w.without k key).state.stores .submission = w.state.stores .submission :=
    Stores.put_of_ne _ _ (submission_ne_of_watched hk)
  refine ⟨?_, fun k' key' hpending => ?_, fun o s hs => ?_⟩
  · rw [hsubs]
    exact h.page.withStores fun k' key' _ => hhas k' key'
  · show (w.state.without k key).stores.has k' key' = false
    by_cases hkey : (k', key') = (k, key)
    · cases hkey
      rw [Stores.has, State.without_get?_self]
      rfl
    · rw [andPending_of_ne hkey] at hpending
      rw [Stores.has, State.without_get?_of_ne hkey]
      exact h.gone k' key' hpending
  · rw [hsubs] at hs
    have hshown := h.shown o s hs
    exact ⟨(hhas _ _).symm.trans hshown.user, (hhas _ _).symm.trans hshown.task⟩

/-- A submission that was not deleted with a user or a task refers to other ones. -/
theorem swept_consistent {k : Kind} (hk : k = .user ∨ k = .task) {depth : Nat} {r mid : State}
    (hdepth : k.level ≤ depth + 1) (hsweep : State.sweep (depth + 1) r k = .ok mid) {o : String}
    {s : Submission} (hs : (mid.stores .submission).get? o = some s) :
    Data.consistent mid.stores .submission s = true := by
  have hlevel : Kind.submission.level ≤ depth := by
    rcases hk with rfl | rfl <;> exact Nat.le_of_succ_le_succ hdepth
  have hstore : State.sweepStore depth r .submission = .ok mid := by
    rcases hk with rfl | rfl
    · simpa [State.sweep, Kind.depends] using hsweep
    · simpa [State.sweep, Kind.depends] using hsweep
  refine State.sweepStore_consistent ?_ hstore o s hs
  intro t t' o' hcascade
  exact ⟨State.cascade_noneDangling depth hlevel hcascade, State.cascade_removes hcascade,
    fun key => State.cascade_shrinks depth hcascade _ key⟩

/-- A subchange is deleted when nothing else is. -/
theorem cascade_leaf {depth : Nat} (h : Viewed start pending w)
    (hok : watchedLayer.cascade depth w .subchange key = .ok w') : Viewed start pending w' := by
  have hstate := eq_ok_of_map (watchedLayer.state_cascade depth w .subchange key) hok
  have hsame : ∀ k key', k ≠ .subchange → (w'.state.stores k).get? key' =
      (w.state.stores k).get? key' := by
    intro k key' hk
    rw [State.cascade_above depth hstate k key' (Nat.zero_le _)
      fun heq => hk (Prod.ext_iff.1 heq).1]
  have hsubs : (w'.state.stores .submission).get? = (w.state.stores .submission).get? :=
    funext fun o => hsame .submission o (by decide)
  refine ⟨?_, fun k' key' hpending => gone_of_cascade hok (h.gone k' key' hpending), fun o s hs => ?_⟩
  · rw [hsubs]
    exact cascade_subchange depth h.page h.shown hok
  · rw [hsubs] at hs
    apply (h.shown o s hs).mono
    intro k key' hwatched hhas
    have hk : k ≠ .subchange := by
      rintro rfl
      cases hwatched
    rw [Stores.has, hsame k key' hk]
    exact hhas

/-- The event of an entity that was pending, after all that depended on it is deleted. -/
theorem send_delete {k : Kind} (hk : k.watched = true) (hpending : pending k key = false)
    (h : Viewed start (andPending pending k key) w)
    (hconsistent : k = .user ∨ k = .task → ∀ o s, (w.state.stores .submission).get? o = some s →
      Data.consistent w.state.stores .submission s = true) :
    Viewed start pending (w.send (.delete k key)) := by
  have hself : andPending pending k key k key = true := by
    rw [andPending, decide_eq_true rfl, Bool.or_true]
  have hgone := h.gone k key hself
  -- No submission refers to what is gone.
  have hrefers : ∀ o s, (w.state.stores .submission).get? o = some s →
      (k = .user → s.user ≠ key) ∧ (k = .task → s.task ≠ key) := by
    intro o s hs
    refine ⟨?_, ?_⟩
    · rintro rfl rfl
      have huser := (Bool.and_eq_true_iff.1 (hconsistent (.inl rfl) o s hs)).2
      rw [hgone] at huser
      cases huser
    · rintro rfl rfl
      have htask := (Bool.and_eq_true_iff.1 (hconsistent (.inr rfl) o s hs)).1
      rw [hgone] at htask
      cases htask
  have hunscored := h.unscored k key (fun hkind o s hs => (hrefers o s hs).1 hkind)
    (fun hkind o s hs => (hrefers o s hs).2 hkind)
  have hexpects : (View.during (andPending pending k key) w.state).Expects (.delete k key) := by
    refine ⟨?_, hunscored⟩
    show (k.watched && (w.state.stores.has k key || andPending pending k key k key)) = true
    rw [hk, hself, Bool.or_true]
    rfl
  have hnext := h.page.follows.next hexpects
  have hview : (View.during (andPending pending k key) w.state).apply (.delete k key) =
      View.during pending w.state := by
    show View.mk _ _ = View.mk _ _
    rw [hunscored]
    congr 1
    funext k' key'
    rw [View.setHas_apply]
    split
    case isTrue heq =>
      cases heq
      rw [hgone, hpending, Bool.or_false, Bool.and_false]
    case isFalse hne =>
      show (k'.watched && (w.state.stores.has k' key' || andPending pending k key k' key')) = _
      rw [andPending_of_ne hne]
  rw [hview] at hnext
  refine ⟨⟨hnext, h.page.populated⟩, fun k' key' hpending' => ?_, fun o s hs => ?_⟩
  · apply h.gone k' key'
    rw [andPending, hpending', Bool.true_or]
  · have huser : andPending pending k key .user s.user = pending .user s.user := by
      by_cases hkind : k = .user
      · exact andPending_of_ne fun heq => (hrefers o s hs).1 hkind (Prod.ext_iff.1 heq).2
      · exact andPending_of_ne fun heq => hkind (Prod.ext_iff.1 heq).1.symm
    have htask : andPending pending k key .task s.task = pending .task s.task := by
      by_cases hkind : k = .task
      · exact andPending_of_ne fun heq => (hrefers o s hs).2 hkind (Prod.ext_iff.1 heq).2
      · exact andPending_of_ne fun heq => hkind (Prod.ext_iff.1 heq).1.symm
    have hshown := h.shown o s hs
    exact ⟨huser ▸ hshown.user, htask ▸ hshown.task⟩

/-- A contest, a task, a team or a user is deleted, when a page can follow the deletions below. -/
theorem cascade_watched {depth : Nat} {k : Kind} (hk : k.watched = true) (hdepth : k.level ≤ depth + 1)
    (hbelow : ∀ {pending : Kind → String → Bool} {v v' : Watched} {d : Kind} {o : String},
      d.level ≤ depth → Viewed start pending v → watchedLayer.cascade depth v d o = .ok v' →
        Viewed start pending v')
    (h : Viewed start pending w) (hok : watchedLayer.cascade (depth + 1) w k key = .ok w') :
    Viewed start pending w' := by
  obtain ⟨old, mid, hold, hsweep, hdelete⟩ := Layer.cascade_onDelete hok
  change mid.onDelete k key old = .ok w' at hdelete
  rw [onDelete_watched hk] at hdelete
  obtain rfl := Except.ok.inj hdelete
  have hstored : w.state.stores.has k key = true := by rw [Stores.has, hold]; rfl
  have hpending : pending k key = false := by
    cases hpending : pending k key with
    | false => rfl
    | true =>
        have hgone := h.gone k key hpending
        rw [hstored] at hgone
        cases hgone
  have hmid : Viewed start (andPending pending k key) mid := by
    refine Layer.sweep_induction (P := fun v => Viewed start (andPending pending k key) v) hsweep
      (h.without_viewed hk hstored) ?_
    intro n v d item v' hn hd hv hcascade
    cases hn
    have hlevel := Kind.level_lt_of_mem_depends hd
    exact hbelow (by omega) hv hcascade
  refine hmid.send_delete hk hpending fun hkind o s hs => ?_
  have hstate := eq_ok_of_map (watchedLayer.state_sweep (depth + 1) (w.without k key) k) hsweep
  exact swept_consistent hkind hdepth hstate hs

/-- A deletion that goes down far enough is one that a page can follow, by induction on how far
down it goes. -/
theorem cascade (depth : Nat) :
    ∀ {pending : Kind → String → Bool} {w w' : Watched} {k : Kind} {key : String},
      k.level ≤ depth → Viewed start pending w → watchedLayer.cascade depth w k key = .ok w' →
        Viewed start pending w' := by
  induction depth with
  | zero =>
      intro pending w w' k key hlevel h hok
      cases k with
      | subchange => exact h.cascade_leaf hok
      | _ => exact absurd hlevel (by decide)
  | succ depth ih =>
      intro pending w w' k key hlevel h hok
      cases k with
      | subchange => exact h.cascade_leaf hok
      | submission => exact h.cascade_submission hok
      | _ => exact cascade_watched rfl hlevel ih h hok

/-! ## Whole runs -/

theorem merge {k : Kind} {items : List (String × Data k)} (h : Viewed start nothingPending w)
    (hconsistent : ∀ item ∈ items, Data.consistent w.state.stores k item.2 = true)
    (hok : items.foldlM (fun w item => w.insert k item.1 item.2) w = .ok w') :
    Viewed start nothingPending w' := by
  -- Storing the first entities keeps the later ones consistent.
  have hall : Viewed start nothingPending w' ∧
      ∀ item ∈ items, Data.consistent w'.state.stores k item.2 = true := by
    refine foldlM_ok_induction (P := fun _ v => Viewed start nothingPending v ∧
      ∀ item ∈ items, Data.consistent v.state.stores k item.2 = true) hok ⟨h, hconsistent⟩ ?_
    rintro done item v v' hinit ⟨hv, hitems⟩ hinsert
    have hmem : item ∈ items := hinit.subset (by simp)
    have hstate := eq_ok_of_map (Watched.state_insert (w := v) (k := k) item.1 item.2) hinsert
    exact ⟨hv.insert (hitems item hmem) hinsert,
      fun other hother => State.consistent_of_insert hstate (hitems other hother)⟩
  exact hall.1

theorem run {op : Op} (h : Viewed start nothingPending w) (hok : watchedLayer.run w op = .ok w') :
    Viewed start nothingPending w' := by
  cases op with
  | create k key data =>
      obtain ⟨-, e, he, hinsert⟩ := Layer.create_ok hok
      exact h.insert (State.consistent_of_validated he) hinsert
  | update k key data =>
      obtain ⟨-, e, he, hinsert⟩ := Layer.update_ok hok
      exact h.insert (State.consistent_of_validated he) hinsert
  | mergeList k data =>
      obtain ⟨entities, hentities, hmerge⟩ := bind_eq_ok_iff.1 hok
      refine h.merge (fun item hitem => ?_) hmerge
      obtain ⟨value, hvalue⟩ :=
        State.entitiesOf_validated (State.refuseData_eq_ok_iff.1 hentities) item hitem
      exact State.consistent_of_validated hvalue
  | delete k key => exact cascade k.level le_rfl h hok
  | deleteList k =>
      refine foldlM_ok_induction (P := fun _ v => Viewed start nothingPending v) hok h ?_
      intro _ key v v' _ hv hdelete
      exact cascade k.level le_rfl hv hdelete

theorem step {op : Op} (h : Viewed start nothingPending w) (hstep : watchedLayer.step w op = some w') :
    Viewed start nothingPending w' := by
  unfold Layer.step at hstep
  split at hstep
  case h_1 w'' hrun => exact Option.some.inj hstep ▸ h.run hrun
  case h_2 => cases hstep
  case h_3 => exact Option.some.inj hstep ▸ h

/-- A page that is loaded now shows what the stores have. -/
theorem reload (h : Viewed start nothingPending w) :
    Viewed (View.of w.state) nothingPending ⟨w.state, []⟩ := by
  refine ⟨⟨?_, h.page.populated⟩, h.gone, h.shown⟩
  show (View.of w.state).Follows [] (View.during nothingPending w.state)
  rw [View.during_nothingPending]
  exact .start

end Viewed

/-- What holds of the ranking after any operations, a page that is loaded then starts from. -/
theorem viewed_of_reachable {r : State} (h : rankingMachine.Reachable r) :
    Viewed (View.of r) nothingPending ⟨r, []⟩ := by
  refine Machine.Reachable.invariant (I := fun r => Viewed (View.of r) nothingPending ⟨r, []⟩) ?_ ?_ h
  · rintro r rfl
    refine ⟨⟨?_, ?_, ?_⟩, fun k key hpending => ?_, fun o s hs => ?_⟩
    · rw [View.during_nothingPending]
      exact .start
    · intro user task sc hget
      cases hget
    · intro user task sc hget
      cases hget
    · cases hpending
    · cases hs
  · intro r op r' hr hstep
    obtain ⟨w', hw', rfl⟩ :=
      watchedLayer.exists_step (w := ⟨r, []⟩) hstep
    exact (hr.step hw').reload

namespace View

variable {v page : View} {e : Event}

/-- A page that is loaded: it is sent the scores above zero only. -/
def load (r : State) : View :=
  ⟨(View.of r).has, fun user task =>
    if 0 < r.scoring.getScore user task then r.scoring.getScore user task else 0⟩

/-- A page shows the same as another one, with zero for some of the scores below zero. -/
structure Shows (page v : View) : Prop where
  has : page.has = v.has
  score : ∀ user task, page.score user task = v.score user task ∨
    v.score user task < 0 ∧ page.score user task = 0

theorem shows_load (r : State) : (load r).Shows (View.of r) := by
  refine ⟨rfl, fun user task => ?_⟩
  show (if 0 < r.scoring.getScore user task then r.scoring.getScore user task else 0) =
      r.scoring.getScore user task ∨ r.scoring.getScore user task < 0 ∧
        (if 0 < r.scoring.getScore user task then r.scoring.getScore user task else 0) = 0
  rcases lt_trichotomy 0 (r.scoring.getScore user task) with hpos | hzero | hneg
  · exact .inl (if_pos hpos)
  · rw [← hzero]
    exact .inl (if_neg (lt_irrefl 0))
  · exact .inr ⟨hneg, if_neg (not_lt.2 hneg.le)⟩

theorem Shows.withoutScores (h : page.Shows v) (k : Kind) (key user task : String) :
    page.withoutScores k key user task = v.withoutScores k key user task ∨
      v.withoutScores k key user task < 0 ∧ page.withoutScores k key user task = 0 := by
  cases k with
  | user =>
      dsimp only [View.withoutScores]
      split
      case isTrue => exact .inl rfl
      case isFalse => exact h.score user task
  | task =>
      dsimp only [View.withoutScores]
      split
      case isTrue => exact .inl rfl
      case isFalse => exact h.score user task
  | _ => exact h.score user task

/-- What another page has no score of, a page that shows the same has none of. -/
theorem Shows.unscored (h : page.Shows v) {k : Kind} {key : String} (hnone : v.Unscored k key) :
    page.Unscored k key := by
  have hzero : ∀ user task, v.score user task = 0 → page.score user task = 0 := by
    intro user task hscore
    rcases h.score user task with hsame | ⟨hneg, -⟩
    · rw [hsame, hscore]
    · rw [hscore] at hneg
      exact absurd hneg (lt_irrefl 0)
  funext user task
  have hscore := congrFun (congrFun hnone user) task
  cases k with
  | user =>
      dsimp only [View.withoutScores] at hscore ⊢
      split
      case isTrue heq =>
        rw [if_pos heq] at hscore
        exact (hzero user task hscore.symm).symm
      case isFalse => rfl
  | task =>
      dsimp only [View.withoutScores] at hscore ⊢
      split
      case isTrue heq =>
        rw [if_pos heq] at hscore
        exact (hzero user task hscore.symm).symm
      case isFalse => rfl
  | _ => rfl

theorem Shows.expects (h : page.Shows v) (hexpects : v.Expects e) : page.Expects e := by
  cases e with
  | create k key => rwa [Expects, h.has]
  | update k key => rwa [Expects, h.has]
  | delete k key => exact ⟨h.has ▸ hexpects.1, h.unscored hexpects.2⟩
  | score user task score => rwa [Expects, h.has]

theorem Shows.apply (h : page.Shows v) (e : Event) : (page.apply e).Shows (v.apply e) := by
  cases e with
  | create k key =>
      refine ⟨?_, h.withoutScores k key⟩
      show page.setHas k key true = v.setHas k key true
      rw [setHas, h.has, setHas]
  | update k key => exact h
  | delete k key =>
      refine ⟨?_, h.withoutScores k key⟩
      show page.setHas k key false = v.setHas k key false
      rw [setHas, h.has, setHas]
  | score user task score =>
      refine ⟨h.has, fun user' task' => ?_⟩
      show Function.update page.score user (Function.update (page.score user) task score) user' task' =
          Function.update v.score user (Function.update (v.score user) task score) user' task' ∨
        Function.update v.score user (Function.update (v.score user) task score) user' task' < 0 ∧
          Function.update page.score user (Function.update (page.score user) task score) user' task' = 0
      by_cases huser : user' = user
      · subst huser
        rw [Function.update_self, Function.update_self]
        by_cases htask : task' = task
        · subst htask
          rw [Function.update_self, Function.update_self]
          exact .inl rfl
        · rw [Function.update_of_ne htask, Function.update_of_ne htask]
          exact h.score user' task'
      · rw [Function.update_of_ne huser, Function.update_of_ne huser]
        exact h.score user' task'

/-- A page follows the events that another one, which shows more, can follow. -/
theorem Follows.of_shows {start : View} {events : List Event} (hfollows : start.Follows events v)
    (h : page.Shows start) : ∃ page', page.Follows events page' ∧ page'.Shows v := by
  induction hfollows with
  | start => exact ⟨page, .start, h⟩
  | next hfollows hexpects ih =>
      obtain ⟨mid, hmid, hshows⟩ := ih
      exact ⟨_, .next hmid (hshows.expects hexpects), hshows.apply _⟩

end View

/-- Viewers follow the ranking: whatever operations come after a page was loaded, the page can rely
on every event that is sent, and with all of them it shows what the stores have and every score that
is not below zero.  In particular nothing is deleted that has a score left. -/
theorem viewers_follow {r : State} (hr : rankingMachine.Reachable r) {w : Watched}
    (hw : watchedMachine.Path (fun _ _ => True) ⟨r, []⟩ w) :
    ∃ page, (View.load r).Follows w.sent page ∧
      (∀ k key, page.has k key = (k.watched && w.state.stores.has k key)) ∧
      ∀ user task, 0 ≤ w.state.scoring.getScore user task →
        page.score user task = w.state.scoring.getScore user task := by
  have hviewed : Viewed (View.of r) nothingPending w :=
    hw.preserves (fun _ _ _ hv _ hstep => hv.step hstep) (viewed_of_reachable hr)
  have hfollows := hviewed.page.follows
  rw [View.during_nothingPending w.state] at hfollows
  obtain ⟨page, hpage, hshows⟩ := hfollows.of_shows (View.shows_load r)
  refine ⟨page, hpage, fun k key => congrFun (congrFun hshows.has k) key, fun user task hpos => ?_⟩
  rcases hshows.score user task with hsame | ⟨hneg, -⟩
  · exact hsame
  · exact absurd hneg (not_lt.2 hpos)

/-- The small ranking after its contest was deleted. -/
def deletedContest : Watched :=
  (watchedMachine.exec ⟨smallRanking, []⟩ [.delete .contest "contest"]).get (by decide +kernel)

theorem viewers_follow_deleted :
    deletedContest.sent =
      [.score "user" "task" 0, .delete .task "task", .delete .contest "contest"] ∧
    ∃ page, (View.load smallRanking).Follows deletedContest.sent page ∧
      (∀ k key, page.has k key = (k.watched && deletedContest.state.stores.has k key)) ∧
      page.score "user" "task" = 0 := by
  have hreachable : rankingMachine.Reachable smallRanking :=
    Machine.reachable_of_exec rfl (Option.some_get _).symm
  have hzero : deletedContest.state.scoring.getScore "user" "task" = 0 := by decide +kernel
  obtain ⟨page, hpage, hhas, hscore⟩ := viewers_follow (w := deletedContest) hreachable
    (Machine.path_of_exec (fun _ _ _ => trivial) (Option.some_get _).symm)
  refine ⟨by decide +kernel, page, hpage, hhas, ?_⟩
  rw [hscore "user" "task" (by rw [hzero]), hzero]

end Ranking
end ContestManagement
