import ContestManagement.Ranking.Files

/-!
# A ranking that is started again

Between two operations the files hold the stores.  Within a deletion they hold more: the entities that
are out of their stores while their dependents are deleted.  Their files are removed after those of the
dependents, so that at any time every reference of a file resolves among the files.
-/

namespace ContestManagement
namespace Ranking

open Lib

/-- Stores that a ranking can be started from. -/
structure Startable (stores : Stores) : Prop where
  integral : Integral stores
  keys : ∀ k key e, (stores k).get? key = some e → validKey key = true
  set : ∀ k key e, (stores k).get? key = some e → Data.set k (Data.get k e) = .ok e
  usable : Scoring.Usable stores

/-- All that is in some stores is in others. -/
def Stores.Sub (stores more : Stores) : Prop :=
  ∀ k key e, (stores k).get? key = some e → (more k).get? key = some e

theorem Startable.sub {stores more : Stores} (h : Startable more) (hsub : stores.Sub more)
    (hintegral : Integral stores) : Startable stores := by
  refine ⟨hintegral, fun k key e he => h.keys k key e (hsub k key e he),
    fun k key e he => h.set k key e (hsub k key e he), ?_⟩
  intro key c s m hc hs hm
  obtain ⟨t, ht, rfl⟩ := Option.map_eq_some_iff.1 hm
  refine h.usable key c s t.scoreMode (hsub .subchange key c hc) (hsub .submission _ s hs) ?_
  rw [modeOf, hsub .task _ t ht, Option.map_some]

/-- The directories hold the stores. -/
def Disk.Holds (disk : Disk) (stores : Stores) : Prop := ∀ k, HoldsStore k (disk k) (stores k)

theorem Disk.Holds.write {disk : Disk} {stores : Stores} (h : disk.Holds stores) (k : Kind)
    (key : String) (e : Data k) : (disk.apply (.write k key (Data.get k e))).Holds
      (stores.put k ((stores k).set key e)) := by
  intro k'
  rw [Disk.apply]
  by_cases hk : k' = k
  · subst hk
    rw [Function.update_self, Stores.put_self]
    exact (h k').set key e
  · rw [Function.update_of_ne hk, Stores.put_of_ne _ _ hk]
    exact h k'

theorem Disk.Holds.remove {disk : Disk} {stores : Stores} (h : disk.Holds stores) (k : Kind)
    (key : String) : (disk.apply (.remove k key)).Holds
      (stores.put k ((stores k).erase key)) := by
  intro k'
  rw [Disk.apply]
  by_cases hk : k' = k
  · subst hk
    rw [Function.update_self, Stores.put_self]
    exact (h k').erase key
  · rw [Function.update_of_ne hk, Stores.put_of_ne _ _ hk]
    exact h k'

/-- Only what is under each key matters. -/
theorem Disk.Holds.congr {disk : Disk} {stores stores' : Stores} (h : disk.Holds stores)
    (hsame : ∀ k key, (stores k).get? key = (stores' k).get? key) : disk.Holds stores' := by
  intro k name file
  rw [h k name file]
  simp only [hsame]

/-- After each of the file operations a ranking could be started. -/
def AlwaysStartable (ops : List FileOp) : Prop :=
  ∀ n, ∃ stores, (Disk.after (ops.take n)).Holds stores ∧ Startable stores

theorem AlwaysStartable.concat {ops : List FileOp} (h : AlwaysStartable ops) {op : FileOp}
    {stores : Stores} (hholds : (Disk.after (ops ++ [op])).Holds stores)
    (hstartable : Startable stores) : AlwaysStartable (ops ++ [op]) := by
  intro n
  rcases Nat.lt_or_ge ops.length n with hlt | hle
  · rw [List.take_of_length_le (by rw [List.length_append, List.length_singleton]; omega)]
    exact ⟨stores, hholds, hstartable⟩
  · rw [List.take_append_of_le_length hle]
    exact h n

/-- What an entity refers to is of one level. -/
theorem Data.level_of_mem_references {k : Kind} {e : Data k} {x y : Kind × String}
    (hx : x ∈ references k e) (hy : y ∈ references k e) : x.1.level = y.1.level := by
  have hlevel : ∀ ref ∈ references k e, ∀ d ∈ ref.1.depends, d = k → ref.1.level = k.level + 1 := by
    rintro ⟨kind, key⟩ - d hd rfl
    cases kind <;> simp only [Kind.depends, List.mem_singleton, List.not_mem_nil] at hd <;>
      subst hd <;> rfl
  rw [hlevel x hx k (mem_depends_of_mem_references hx) rfl,
    hlevel y hy k (mem_depends_of_mem_references hy) rfl]

theorem State.validKey_of_entitiesOf {r : State} {k : Kind} {data : PyValue}
    {entities : Dict String (Data k)} (h : r.entitiesOf k data = .ok entities) :
    ∀ item ∈ entities.items, validKey item.1 = true := by
  cases data with
  | dict pairs =>
      obtain ⟨items, hitems, hentities⟩ := bind_eq_ok_iff.1 h
      cases hentities
      have hvalid : ∀ item ∈ items, validKey item.1 = true := by
        intro item hitem
        obtain ⟨pair, -, hpair⟩ := exists_of_mem_mapM hitems hitem
        unfold State.validatedEntity at hpair
        by_cases hkey : validKey pair.1 = true
        · cases hvalidated : r.validated k pair.2 with
          | error message => simp [hkey, hvalidated] at hpair
          | ok e =>
              simp only [hkey, hvalidated, if_true, Except.ok.injEq] at hpair
              rw [← hpair]
              exact hkey
        · simp [hkey] at hpair
      refine List.foldlRecOn (motive := fun d : Dict String (Data k) => ∀ item ∈ d.items,
        validKey item.1 = true) items _ (by simp [Dict.empty]) ?_
      intro d hd item hitem pair hpair
      have hget := Dict.mem_items_iff.1 hpair
      rw [Dict.get?_set] at hget
      split at hget
      case isTrue hkey =>
        rw [hkey]
        exact hvalid item hitem
      case isFalse => exact hd pair (Dict.mem_items_iff.2 hget)
  | _ => cases h

namespace Filed

variable {w w' : Filed} {k : Kind} {key : String} {pending : Kind → String → Prop}

theorem thenFile_eq_ok {op : FileOp} {result : Except Raised State}
    (h : w.thenFile op result = .ok w') :
    result = .ok w'.state ∧ w'.files = w.files ++ [op] := by
  cases result with
  | error raised => cases h
  | ok state =>
      obtain rfl := Except.ok.inj h
      exact ⟨rfl, rfl⟩

/-- The files hold all that the stores have, and what more they hold is pending. -/
structure Ahead (pending : Kind → String → Prop) (w : Filed) : Prop where
  always : AlwaysStartable w.files
  held : ∃ stores, (Disk.after w.files).Holds stores ∧ Startable stores ∧
    w.state.stores.Sub stores ∧ ∀ k key, stores.has k key = true →
      w.state.stores.has k key = false → pending k key

/-! ## Deletions -/

/-- An entity that is out of its store is pending until its file is removed. -/
theorem Ahead.without (h : w.Ahead pending) (k : Kind) (key : String) :
    (w.without k key).Ahead fun k' key' => pending k' key' ∨ (k', key') = (k, key) := by
  obtain ⟨stores, hholds, hstartable, hsub, hpending⟩ := h.held
  refine ⟨h.always, stores, hholds, hstartable, fun k' key' e he => ?_, fun k' key' hhas hnot => ?_⟩
  · by_cases hself : (k', key') = (k, key)
    · cases hself
      have hnone : ((w.state.without k key).stores k).get? key = none := State.without_get?_self
      rw [show ((w.without k key).state.stores k).get? key = none from hnone] at he
      cases he
    · have hsame : ((w.state.without k key).stores k').get? key' =
          (w.state.stores k').get? key' := State.without_get?_of_ne hself
      exact hsub k' key' e (hsame ▸ he)
  · by_cases hself : (k', key') = (k, key)
    · exact Or.inr hself
    · have hsame : ((w.state.without k key).stores k').get? key' =
          (w.state.stores k').get? key' := State.without_get?_of_ne hself
      refine Or.inl (hpending k' key' hhas ?_)
      rw [Stores.has, ← hsame]
      exact hnot

/-- Nothing that is held refers to an entity whose deletion ends. -/
theorem Ahead.unreferenced {depth : Nat} {r : State} {more : Stores} (h : w.Ahead pending)
    (hlevel : k.level ≤ depth) (hpending : ∀ k' key', pending k' key' → k.level < k'.level)
    (hcascade : State.cascade depth w.state k key = .ok r) (hsub : r.stores.Sub more)
    (hmore : ∀ k' key', more.has k' key' = true → r.stores.has k' key' = false →
      pending k' key' ∨ (k', key') = (k, key)) {k' : Kind} {key' : String} {e : Data k'}
    (he : (more k').get? key' = some e) : (k, key) ∉ Data.references k' e := by
  intro href
  have hlt : k'.level < k.level :=
    Kind.level_lt_of_mem_depends (Data.mem_depends_of_mem_references href)
  -- It is lower than all that is pending, so that it is still in its store.
  have hstored : (r.stores k').get? key' = some e := by
    have hhas : r.stores.has k' key' = true := by
      by_contra hnot
      rw [Bool.not_eq_true] at hnot
      rcases hmore k' key' (Stores.has_iff.2 ⟨e, he⟩) hnot with hpend | hself
      · have := hpending k' key' hpend
        omega
      · cases hself
        omega
    obtain ⟨f, hf⟩ := Stores.has_iff.1 hhas
    have hsame := hsub k' key' f hf
    rw [he] at hsame
    rw [hf, hsame]
  have hbefore : (w.state.stores k').get? key' = some e := by
    rcases State.cascade_shrinks depth hcascade k' key' with hsame | hgone
    · rw [← hsame, hstored]
    · rw [hgone] at hstored
      cases hstored
  -- All it refers to was in its store, as no reference of it is pending.
  obtain ⟨stores, -, hstartable, hheld, hout⟩ := h.held
  have hconsistent : Data.consistent w.state.stores k' e = true := by
    rw [Data.consistent_iff]
    intro ref hmem
    have hresolved := (Data.consistent_iff _ _ _).1
      (hstartable.integral k' key' e (hheld k' key' e hbefore)) ref hmem
    by_contra hnot
    rw [Bool.not_eq_true] at hnot
    have habove := hpending ref.1 ref.2 (hout ref.1 ref.2 hresolved hnot)
    have hsame := Data.level_of_mem_references href hmem
    dsimp only at hsame
    omega
  have hafter := State.cascade_noneDangling depth hlevel hcascade k' key' e hstored hconsistent
  have hhas := (Data.consistent_iff _ _ _).1 hafter (k, key) href
  obtain ⟨f, hf⟩ := Stores.has_iff.1 hhas
  rw [State.cascade_removes hcascade] at hf
  cases hf

/-- A deletion whose file is removed when nothing that is held refers to it any more. -/
theorem Ahead.remove
    (h : w.Ahead fun k' key' => pending k' key' ∨ (k', key') = (k, key))
    (hstores : w'.state.stores = w.state.stores) (hfiles : w'.files = w.files ++ [.remove k key])
    (hremoved : (w.state.stores k).get? key = none)
    (hrefs : ∀ more : Stores, w.state.stores.Sub more →
      (∀ k' key', more.has k' key' = true → w.state.stores.has k' key' = false →
        pending k' key' ∨ (k', key') = (k, key)) →
      ∀ k' key' (e : Data k'), (more k').get? key' = some e → (k, key) ∉ Data.references k' e) :
    w'.Ahead pending := by
  obtain ⟨stores, hholds, hstartable, hsub, hpending⟩ := h.held
  have hunreferenced := hrefs stores hsub hpending
  have hheld := hholds.remove k key
  have hless : (stores.put k ((stores k).erase key)).Sub stores := by
    intro k' key' e he
    by_cases hself : (k', key') = (k, key)
    · cases hself
      rw [Stores.put_self, Dict.get?_erase, if_pos rfl] at he
      cases he
    · rwa [Stores.get?_put_erase stores hself] at he
  have hintegral : Integral (stores.put k ((stores k).erase key)) := by
    intro k' key' e he
    have hstored := hless k' key' e he
    rw [Data.consistent_iff]
    intro ref href
    have hne : (ref.1, ref.2) ≠ (k, key) := by
      intro heq
      exact hunreferenced k' key' e hstored (heq ▸ href)
    have hresolved := (Data.consistent_iff _ _ _).1 (hstartable.integral k' key' e hstored) ref href
    rw [Stores.has, Stores.get?_put_erase stores hne]
    exact hresolved
  have hafter : (Disk.after w'.files).Holds (stores.put k ((stores k).erase key)) := by
    rw [hfiles, Disk.after_concat]
    exact hheld
  have hstart := hstartable.sub hless hintegral
  refine ⟨?_, _, hafter, hstart, ?_, ?_⟩
  · rw [hfiles] at hafter ⊢
    exact h.always.concat hafter hstart
  · intro k' key' e he
    rw [hstores] at he
    have hne : (k', key') ≠ (k, key) := by
      intro heq
      cases heq
      rw [hremoved] at he
      cases he
    rw [Stores.get?_put_erase stores hne]
    exact hsub k' key' e he
  · intro k' key' hhas hnot
    rw [hstores] at hnot
    have hne : (k', key') ≠ (k, key) := by
      intro heq
      cases heq
      rw [Stores.has, Stores.put_self, Dict.get?_erase, if_pos rfl] at hhas
      cases hhas
    rw [Stores.has, Stores.get?_put_erase stores hne] at hhas
    rcases hpending k' key' hhas hnot with hpend | hself
    · exact hpend
    · exact absurd hself hne

/-- The end of a deletion, when all that depends on the entity is gone. -/
theorem Ahead.endCascade {depth : Nat} (hlevel : k.level ≤ depth)
    (hpending : ∀ k' key', pending k' key' → k.level < k'.level) (hw : w.Ahead pending)
    (h : filedLayer.cascade depth w k key = .ok w')
    (hmid : ∀ mid, filedLayer.sweep depth (w.without k key) k = .ok mid →
      mid.Ahead fun k' key' => pending k' key' ∨ (k', key') = (k, key)) : w'.Ahead pending := by
  have hstate : State.cascade depth w.state k key = .ok w'.state := by
    have hmap := filedLayer.state_cascade depth w k key
    rw [h] at hmap
    exact hmap.symm
  obtain ⟨old, mid, -, hsweep, hdelete⟩ := Layer.cascade_onDelete h
  obtain ⟨hcallback, hfiles⟩ := thenFile_eq_ok hdelete
  have hstores : w'.state.stores = mid.state.stores := State.onDelete_stores hcallback
  refine (hmid mid hsweep).remove hstores hfiles ?_ ?_
  · rw [← hstores]
    exact State.cascade_removes hstate
  · intro more hsub hmore k' key' e he
    rw [← hstores] at hsub hmore
    exact hw.unreferenced hlevel hpending hstate hsub hmore he

/-- A deletion leaves pending what was pending before it.  By induction on how far down it goes: the
entities it deletes on its way are of lower levels than all that is pending. -/
theorem Ahead.cascade (depth : Nat) :
    ∀ {w w' : Filed} {k : Kind} {key : String} {pending : Kind → String → Prop},
      k.level ≤ depth → (∀ k' key', pending k' key' → k.level < k'.level) → w.Ahead pending →
      filedLayer.cascade depth w k key = .ok w' → w'.Ahead pending := by
  induction depth with
  | zero =>
      intro w w' k key pending hlevel hpending hw h
      exact hw.endCascade hlevel hpending h fun mid hsweep => by
        cases hsweep
        exact hw.without k key
  | succ depth ih =>
      intro w w' k key pending hlevel hpending hw h
      refine hw.endCascade hlevel hpending h fun mid hsweep => ?_
      refine Layer.sweep_induction (P := fun v => v.Ahead fun k' key' =>
        pending k' key' ∨ (k', key') = (k, key)) hsweep (hw.without k key) ?_
      intro n v d item v' hn hd hv hcascade
      cases hn
      have hlt := Kind.level_lt_of_mem_depends hd
      refine ih (by omega) ?_ hv hcascade
      rintro k' key' (hpend | hself)
      · have := hpending k' key' hpend
        omega
      · cases hself
        exact hlt

end Filed

/-! ## Whole runs -/

namespace Filed

variable {w w' : Filed} {k : Kind} {key : String}

/-- Between two operations nothing is pending. -/
structure Kept (w : Filed) : Prop where
  ahead : w.Ahead fun _ _ => False
  integral : Integral w.state.stores
  mirrors : Mirrors w.state (modeOf w.state.stores)

theorem Kept.holds (h : w.Kept) : (Disk.after w.files).Holds w.state.stores := by
  obtain ⟨stores, hholds, -, hsub, hpending⟩ := h.ahead.held
  refine hholds.congr fun k key => ?_
  cases hstored : (w.state.stores k).get? key with
  | some e => exact hsub k key e hstored
  | none =>
      rw [Option.eq_none_iff_forall_ne_some]
      intro e he
      refine hpending k key (Stores.has_iff.2 ⟨e, he⟩) ?_
      rw [Stores.has, hstored]
      rfl

theorem Kept.startable (h : w.Kept) : Startable w.state.stores := by
  obtain ⟨stores, -, hstartable, hsub, -⟩ := h.ahead.held
  exact hstartable.sub hsub h.integral

theorem Kept.insert {e : Data k} {value : PyValue} (h : w.Kept) (hkey : validKey key = true)
    (hset : Data.set k value = .ok e) (hconsistent : Data.consistent w.state.stores k e = true)
    (hharmless : Harmless w.state.stores k key e) (hinsert : w.insert k key e = .ok w') : w'.Kept := by
  obtain ⟨hstate, hfiles⟩ := thenFile_eq_ok hinsert
  have hstores := State.insert_stores hstate
  have hintegral := State.integral_insert h.integral hconsistent hstate
  have hmirrors := State.insert_mirrors h.integral h.mirrors hharmless hstate
  have hholds : (Disk.after w'.files).Holds w'.state.stores := by
    rw [hfiles, hstores, Disk.after_concat]
    exact h.holds.write k key e
  have hnew : ∀ k' key' f, (w'.state.stores k').get? key' = some f →
      validKey key' = true ∧ Data.set k' (Data.get k' f) = .ok f := by
    intro k' key' f hf
    rw [hstores] at hf
    by_cases hself : (k', key') = (k, key)
    · cases hself
      rw [Stores.put_self, Dict.get?_set, if_pos rfl, Option.some.injEq] at hf
      subst hf
      exact ⟨hkey, Data.set_get hset⟩
    · rw [Stores.get?_put_set _ hself] at hf
      exact ⟨h.startable.keys k' key' f hf, h.startable.set k' key' f hf⟩
  have hstartable : Startable w'.state.stores :=
    ⟨hintegral, fun k' key' f hf => (hnew k' key' f hf).1, fun k' key' f hf => (hnew k' key' f hf).2,
      Scoring.usable_of_mirror hmirrors⟩
  refine ⟨⟨?_, w'.state.stores, hholds, hstartable, fun _ _ _ he => he, ?_⟩, hintegral, hmirrors⟩
  · rw [hfiles] at hholds ⊢
    exact h.ahead.always.concat hholds hstartable
  · intro k' key' hhas hnot
    rw [hhas] at hnot
    cases hnot

theorem Kept.delete (h : w.Kept) (hdelete : filedLayer.delete w k key = .ok w') : w'.Kept := by
  have hstate : w.state.delete k key = .ok w'.state := by
    have hmap := filedLayer.state_delete w k key
    rw [hdelete] at hmap
    exact hmap.symm
  exact ⟨h.ahead.cascade k.level (le_refl _) (fun _ _ hpend => hpend.elim) hdelete,
    State.delete_integral h.integral hstate, State.delete_mirrors h.integral h.mirrors hstate⟩

theorem Kept.insertAll {items : List (String × Data k)} (h : w.Kept)
    (hkeys : ∀ item ∈ items, validKey item.1 = true)
    (hset : ∀ item ∈ items, ∃ value, Data.set k value = .ok item.2)
    (hconsistent : ∀ item ∈ items, Data.consistent w.state.stores k item.2 = true)
    (hharmless : HarmlessAll w.state.stores k items)
    (hinsert : items.foldlM (fun w item => w.insert k item.1 item.2) w = .ok w') : w'.Kept := by
  induction items generalizing w with
  | nil =>
      cases hinsert
      exact h
  | cons item rest ih =>
      rw [List.foldlM_cons, bind_eq_ok_iff] at hinsert
      obtain ⟨next, hnext, hrest⟩ := hinsert
      obtain ⟨hfirst, hmore⟩ := hharmless
      obtain ⟨hstate, -⟩ := thenFile_eq_ok hnext
      rw [← State.insert_stores hstate] at hmore
      obtain ⟨value, hvalue⟩ := hset item List.mem_cons_self
      have hkept : next.Kept := h.insert (hkeys item List.mem_cons_self) hvalue
        (hconsistent item List.mem_cons_self) hfirst hnext
      refine ih hkept (fun other hother => hkeys other (List.mem_cons_of_mem _ hother))
        (fun other hother => hset other (List.mem_cons_of_mem _ hother)) (fun other hother => ?_)
        hmore hrest
      exact State.consistent_of_insert hstate (hconsistent other (List.mem_cons_of_mem _ hother))

theorem Kept.run {op : Op} (h : w.Kept) (hcareful : Careful w.state op)
    (hrun : filedLayer.run w op = .ok w') : w'.Kept := by
  cases op with
  | create k key data =>
      obtain ⟨hkey, e, he, hinsert⟩ := Layer.create_ok hrun
      have hset := State.set_of_validated he
      simp only [Careful, hset] at hcareful
      exact h.insert hkey hset (State.consistent_of_validated he) hcareful hinsert
  | update k key data =>
      obtain ⟨hhas, e, he, hinsert⟩ := Layer.update_ok hrun
      have hset := State.set_of_validated he
      simp only [Careful, hset] at hcareful
      obtain ⟨old, hold⟩ := Stores.has_iff.1 hhas
      exact h.insert (h.startable.keys k key old hold) hset (State.consistent_of_validated he)
        hcareful hinsert
  | mergeList k data =>
      obtain ⟨entities, hentities, hinsert⟩ := Layer.mergeList_ok hrun
      simp only [Careful, hentities] at hcareful
      have hvalid := State.entitiesOf_validated hentities
      refine h.insertAll (State.validKey_of_entitiesOf hentities) ?_ ?_ hcareful hinsert
      · intro item hitem
        obtain ⟨value, hvalue⟩ := hvalid item hitem
        exact ⟨value, State.set_of_validated hvalue⟩
      · intro item hitem
        obtain ⟨value, hvalue⟩ := hvalid item hitem
        exact State.consistent_of_validated hvalue
  | delete k key => exact h.delete hrun
  | deleteList k =>
      refine foldlM_ok_induction (P := fun _ v => v.Kept) hrun h ?_
      intro _ key v v' _ hv hstep
      exact hv.delete hstep

theorem Kept.step {op : Op} (h : w.Kept) (hcareful : Careful w.state op)
    (hstep : filedLayer.step w op = some w') : w'.Kept := by
  unfold Layer.step at hstep
  split at hstep
  case h_1 v hrun =>
    obtain rfl := Option.some.inj hstep
    exact h.run hcareful hrun
  case h_2 => cases hstep
  case h_3 =>
    obtain rfl := Option.some.inj hstep
    exact h

theorem kept_empty : Kept ⟨State.empty, []⟩ := by
  have hnone : ∀ (k : Kind) (key : String) (e : Data k),
      (State.empty.stores k).get? key ≠ some e := by
    intro k key e he
    rw [show State.empty.stores k = Dict.empty from rfl, Dict.get?_empty] at he
    cases he
  have hstartable : Startable State.empty.stores :=
    ⟨fun k key e he => absurd he (hnone k key e), fun k key e he => absurd he (hnone k key e),
      fun k key e he => absurd he (hnone k key e), fun key c _ _ hc => absurd hc (hnone _ key c)⟩
  have hholds : (Disk.after []).Holds State.empty.stores := fun k => HoldsStore.empty
  refine ⟨⟨fun n => ?_, _, hholds, hstartable, fun _ _ _ he => he, ?_⟩, hstartable.integral, ?_⟩
  · rw [List.take_nil]
    exact ⟨_, hholds, hstartable⟩
  · intro k key hhas hnot
    rw [hhas] at hnot
    cases hnot
  · refine ⟨fun user task _ key => rfl, fun user task sc hsc => ?_⟩
    rw [show State.empty.scoring = Dict.empty from rfl, Dict.get?_empty] at hsc
    cases hsc

theorem kept_of_reachableVia {w : Filed}
    (h : filedMachine.ReachableVia (fun w op => Careful w.state op) w) : w.Kept := by
  refine Machine.ReachableVia.invariant (I := Kept) ?_ ?_ h
  · rintro w rfl
    exact kept_empty
  · intro w op w' hw hcareful hstep
    exact hw.step hcareful hstep

end Filed

/-- A ranking that is started from the files of some stores has these stores. -/
theorem loadStores_eq {disk : Disk} {stores : Stores} (hholds : disk.Holds stores)
    (hstartable : Startable stores) {listing : Kind → List (String × File)}
    (hlisting : ∀ k, (listing k).Perm (disk k).items) (k : Kind) (key : String) :
    (loadStores listing k).get? key = (stores k).get? key :=
  (hholds k).load (hstartable.keys k) (hstartable.set k) (hlisting k) key

theorem startable_loadStores {disk : Disk} {stores : Stores} (hholds : disk.Holds stores)
    (hstartable : Startable stores) {listing : Kind → List (String × File)}
    (hlisting : ∀ k, (listing k).Perm (disk k).items) : Startable (loadStores listing) := by
  have hsame := loadStores_eq hholds hstartable hlisting
  refine hstartable.sub (fun k key e he => by rw [← hsame, he]) fun k key e he => ?_
  rw [hsame] at he
  rw [Data.consistent_iff]
  intro ref href
  have hresolved := (Data.consistent_iff _ _ _).1 (hstartable.integral k key e he) ref href
  rw [Stores.has, hsame]
  exact hresolved

/-- A ranking that stops after any of its file operations starts again from its files, in whatever
order they are listed: every reference resolves and all the scores can be built.  Between two
operations it comes back with the stores and the results it had. -/
theorem restarts_from_files {w : Filed}
    (h : filedMachine.ReachableVia (fun w op => Careful w.state op) w) :
    (∀ (n : Nat) (listing : Kind → List (String × File)),
      (∀ k, (listing k).Perm (Disk.after (w.files.take n) k).items) →
        Integral (loadStores listing) ∧
        ∃ scoring, Scoring.initStore (loadStores listing) = .ok scoring) ∧
    ∀ listing : Kind → List (String × File),
      (∀ k, (listing k).Perm (Disk.after w.files k).items) →
        (∀ k key, (loadStores listing k).get? key = (w.state.stores k).get? key) ∧
        ∃ scoring, Scoring.initStore (loadStores listing) = .ok scoring ∧
          ∀ user task,
            SameResults (w.state.scoring.get? (user, task)) (scoring.get? (user, task)) := by
  have hkept := Filed.kept_of_reachableVia h
  constructor
  · intro n listing hlisting
    obtain ⟨stores, hholds, hstartable⟩ := hkept.ahead.always n
    have hloaded := startable_loadStores hholds hstartable hlisting
    obtain ⟨scoring, hinit, -⟩ := Scoring.initStore_usable hloaded.integral hloaded.usable
    exact ⟨hloaded.integral, scoring, hinit⟩
  · intro listing hlisting
    have hsame := loadStores_eq hkept.holds hkept.startable hlisting
    have hloaded := startable_loadStores hkept.holds hkept.startable hlisting
    obtain ⟨scoring, hinit, hmirror⟩ :=
      Scoring.initStore_usable hloaded.integral hloaded.usable
    have hmode : modeOf (loadStores listing) = modeOf w.state.stores := by
      funext task
      rw [modeOf, modeOf, hsame]
    rw [funext (hsame .submission), funext (hsame .subchange), hmode] at hmirror
    exact ⟨hsame, scoring, hinit, fun user task => hkept.mirrors.sameResults hmirror user task⟩

/-- A run that ends with the deletion of the contest, and with it of all but the user. -/
def filedRanking : Filed :=
  (filedMachine.execVia (fun w op => Careful w.state op) ⟨State.empty, []⟩
    (carefulOps ++ [.delete .contest "contest"])).get (by decide +kernel)

/-- The directories when the change and the submission are deleted and the task is not yet. -/
def halfDeleted : Kind → List (String × File) :=
  fun k => (Disk.after (filedRanking.files.take 12) k).items

theorem restarts_from_files_half_deleted :
    filedRanking.files.length = 14 ∧ Integral (loadStores halfDeleted) ∧
      (loadStores halfDeleted .submission).keys = [] ∧
      (loadStores halfDeleted .task).keys = ["task"] := by
  have hpath : filedMachine.Path (fun w op => Careful w.state op) ⟨State.empty, []⟩ filedRanking :=
    Machine.path_of_execVia (Option.some_get _).symm
  obtain ⟨hstopped, -⟩ := restarts_from_files ⟨_, rfl, hpath⟩
  obtain ⟨hintegral, -⟩ := hstopped 12 halfDeleted fun k => List.Perm.refl _
  exact ⟨by decide +kernel, hintegral, by decide +kernel, by decide +kernel⟩

end Ranking
end ContestManagement
