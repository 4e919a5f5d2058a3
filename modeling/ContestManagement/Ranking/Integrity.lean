import Mathlib.Logic.Relation
import ContestManagement.Ranking.Stores

/-!
# Every reference resolves

An entity of the ranking refers to entities of other stores, and those stores list the store
of the entity among their dependents.  `create`, `update` and `merge_list` check the
references of what they store, and never take a key away.  A deletion takes one key away and
then goes through the dependents.

What a deletion keeps is said of `cascade` at any depth: no entity that was consistent
becomes inconsistent and stays (`cascade_noneDangling`).  Every entity it removes depends on
the first one, and once no reference dangles nothing that depends on it is left.
-/

namespace ContestManagement
namespace Ranking

open Lib

/-- Every stored entity is consistent with the stores. -/
def Integral (stores : Stores) : Prop :=
  ∀ k key e, (stores k).get? key = some e → Data.consistent stores k e = true

/-- A stored entity refers to another one. -/
def DependsOn (stores : Stores) (x y : Kind × String) : Prop :=
  ∃ e, (stores x.1).get? x.2 = some e ∧ y ∈ Data.references x.1 e

namespace Stores

theorem has_iff {stores : Stores} {k : Kind} {key : String} :
    stores.has k key = true ↔ ∃ e, (stores k).get? key = some e :=
  Option.isSome_iff_exists

theorem get?_put_set (stores : Stores) {k : Kind} {key : String} {e : Data k} {k' : Kind}
    {key' : String} (hne : (k', key') ≠ (k, key)) :
    ((stores.put k ((stores k).set key e)) k').get? key' = (stores k').get? key' := by
  by_cases hk : k' = k
  · subst hk
    have hkey : key' ≠ key := fun h => hne (by rw [h])
    rw [put_self, Dict.get?_set, if_neg hkey]
  · rw [put_of_ne stores _ hk]

theorem get?_put_erase (stores : Stores) {k : Kind} {key : String} {k' : Kind} {key' : String}
    (hne : (k', key') ≠ (k, key)) :
    ((stores.put k ((stores k).erase key)) k').get? key' = (stores k').get? key' := by
  by_cases hk : k' = k
  · subst hk
    have hkey : key' ≠ key := fun h => hne (by rw [h])
    rw [put_self, Dict.get?_erase, if_neg hkey]
  · rw [put_of_ne stores _ hk]

end Stores

/-! ## The callbacks leave the stores alone -/

namespace State

variable {r r' : State} {k : Kind} {key : String}

theorem callback_stores {scoring : Except PyError Scoring} (h : r.callback scoring = .ok r') :
    r'.stores = r.stores := by
  cases scoring with
  | error e => cases h
  | ok scoring =>
      cases h
      rfl

theorem onCreate_stores {e : Data k} (h : r.onCreate k key e = .ok r') : r'.stores = r.stores := by
  cases k with
  | submission => exact callback_stores h
  | subchange => exact callback_stores h
  | _ =>
      cases h
      rfl

theorem onUpdate_stores {old e : Data k} (h : r.onUpdate k key old e = .ok r') :
    r'.stores = r.stores := by
  cases k with
  | submission => exact callback_stores h
  | subchange => exact callback_stores h
  | _ =>
      cases h
      rfl

theorem onDelete_stores {old : Data k} (h : r.onDelete k key old = .ok r') :
    r'.stores = r.stores := by
  cases k with
  | submission => exact callback_stores h
  | subchange => exact callback_stores h
  | _ =>
      cases h
      rfl

theorem insert_stores {e : Data k} (h : r.insert k key e = .ok r') :
    r'.stores = r.stores.put k ((r.stores k).set key e) := by
  unfold insert at h
  cases hget : (r.stores k).get? key with
  | none =>
      simp only [hget] at h
      exact onCreate_stores h
  | some old =>
      simp only [hget] at h
      exact onUpdate_stores h

/-! ## Storing an entity -/

/-- Storing an entity takes no key away. -/
theorem has_of_insert {e : Data k} (h : r.insert k key e = .ok r') {k' : Kind} {key' : String}
    (hhas : r.stores.has k' key' = true) : r'.stores.has k' key' = true := by
  rw [Stores.has_iff, insert_stores h]
  by_cases hself : (k', key') = (k, key)
  · cases hself
    exact ⟨e, by rw [Stores.put_self, Dict.get?_set, if_pos rfl]⟩
  · rw [Stores.get?_put_set _ hself]
    exact Stores.has_iff.1 hhas

theorem consistent_of_insert {e : Data k} (h : r.insert k key e = .ok r') {k' : Kind} {f : Data k'}
    (hf : Data.consistent r.stores k' f = true) : Data.consistent r'.stores k' f = true := by
  rw [Data.consistent_iff] at hf ⊢
  exact fun ref href => has_of_insert h (hf ref href)

theorem integral_insert {e : Data k} (hr : Integral r.stores)
    (he : Data.consistent r.stores k e = true) (h : r.insert k key e = .ok r') :
    Integral r'.stores := by
  intro k' key' f hf
  refine consistent_of_insert h ?_
  rw [insert_stores h] at hf
  by_cases hself : (k', key') = (k, key)
  · cases hself
    rw [Stores.put_self, Dict.get?_set, if_pos rfl, Option.some.injEq] at hf
    exact hf ▸ he
  · rw [Stores.get?_put_set _ hself] at hf
    exact hr k' key' f hf

theorem consistent_of_validated {data : PyValue} {e : Data k} (h : r.validated k data = .ok e) :
    Data.consistent r.stores k e = true := by
  unfold validated at h
  rw [bind_eq_ok_iff] at h
  obtain ⟨f, -, hf⟩ := h
  split at hf
  case isTrue hconsistent =>
    cases hf
    exact hconsistent
  case isFalse => cases hf

theorem refuseData_eq_ok_iff {β : Type} {result : Except String β} {b : β} :
    refuseData result = .ok b ↔ result = .ok b := by
  cases result with
  | error message => simp [refuseData]
  | ok b' => simp [refuseData]

/-- What `create` and `update` store is a validated entity. -/
theorem create_ok {data : PyValue} (h : r.create k key data = .ok r') :
    r.stores.has k key = false ∧ ∃ e, r.validated k data = .ok e ∧ r.insert k key e = .ok r' := by
  unfold create at h
  split at h
  case isTrue => cases h
  split at h
  case isTrue => cases h
  case isFalse hhas =>
    rw [bind_eq_ok_iff] at h
    obtain ⟨e, he, hinsert⟩ := h
    exact ⟨by simpa using hhas, e, refuseData_eq_ok_iff.1 he, hinsert⟩

theorem update_ok {data : PyValue} (h : r.update k key data = .ok r') :
    r.stores.has k key = true ∧ ∃ e, r.validated k data = .ok e ∧ r.insert k key e = .ok r' := by
  unfold update at h
  split at h
  case isTrue => cases h
  case isFalse hhas =>
    rw [bind_eq_ok_iff] at h
    obtain ⟨e, he, hinsert⟩ := h
    exact ⟨by simpa using hhas, e, refuseData_eq_ok_iff.1 he, hinsert⟩

/-- The entities of `merge_list` were validated before the first was stored. -/
theorem entitiesOf_validated {data : PyValue} {entities : Dict String (Data k)}
    (h : r.entitiesOf k data = .ok entities) :
    ∀ item ∈ entities.items, ∃ value, r.validated k value = .ok item.2 := by
  cases data with
  | dict pairs =>
      unfold entitiesOf at h
      rw [bind_eq_ok_iff] at h
      obtain ⟨items, hitems, hentities⟩ := h
      cases hentities
      have hvalidated : ∀ item ∈ items, ∃ value, r.validated k value = .ok item.2 := by
        intro item hitem
        obtain ⟨pair, -, hpair⟩ := exists_of_mem_mapM hitems hitem
        refine ⟨pair.2, ?_⟩
        unfold validatedEntity at hpair
        by_cases hkey : validKey pair.1
        · cases hvalid : r.validated k pair.2 with
          | error message => simp [hkey, hvalid] at hpair
          | ok e =>
              simp only [hkey, hvalid, if_true, Except.ok.injEq] at hpair
              rw [← hpair]
        · simp [hkey] at hpair
      -- Each item that is set in the dictionary is one of the validated ones.
      refine List.foldlRecOn (motive := fun d : Dict String (Data k) => ∀ item ∈ d.items,
        ∃ value, r.validated k value = .ok item.2) items _ (by simp [Dict.empty]) ?_
      intro d hd item hitem pair hpair
      have hget := Dict.mem_items_iff.1 hpair
      rw [Dict.get?_set] at hget
      split at hget
      case isTrue =>
        rw [Option.some.injEq] at hget
        exact hget ▸ hvalidated item hitem
      case isFalse => exact hd pair (Dict.mem_items_iff.2 hget)
  | _ => cases h

theorem mergeList_ok {data : PyValue} (h : r.mergeList k data = .ok r') :
    ∃ entities, r.entitiesOf k data = .ok entities ∧
      entities.items.foldlM (fun r item => r.insert k item.1 item.2) r = .ok r' := by
  unfold mergeList at h
  rw [bind_eq_ok_iff] at h
  obtain ⟨entities, hentities, hinsert⟩ := h
  exact ⟨entities, refuseData_eq_ok_iff.1 hentities, hinsert⟩

/-! ## Deleting an entity -/

/-- Go through the items of a dependent store, at most `depth` stores down. -/
def sweepStore (depth : Nat) (r : State) (d : Kind) : Except Raised State :=
  (r.stores d).items.foldlM (fun r item =>
    if Data.consistent r.stores d item.2 then .ok r else cascade depth r d item.1) r

/-- Go through the dependents of a store. -/
def sweep (depth : Nat) (r : State) (k : Kind) : Except Raised State :=
  match depth with
  | 0 => .ok r
  | depth + 1 => k.depends.foldlM (sweepStore depth) r

/-- The state without an entity. -/
def without (r : State) (k : Kind) (key : String) : State :=
  { r with stores := r.stores.put k ((r.stores k).erase key) }

theorem cascade_eq (depth : Nat) (r : State) (k : Kind) (key : String) :
    cascade depth r k key =
      match (r.stores k).get? key with
      | none => .error (.invalidKey "Key not in store.")
      | some old => sweep depth (r.without k key) k >>= fun r => r.onDelete k key old := by
  cases depth with
  | zero =>
      rw [cascade]
      rfl
  | succ depth =>
      rw [cascade]
      rfl

theorem cascade_onDelete {depth : Nat} (h : cascade depth r k key = .ok r') :
    ∃ old mid, (r.stores k).get? key = some old ∧ sweep depth (r.without k key) k = .ok mid ∧
      mid.onDelete k key old = .ok r' := by
  rw [cascade_eq] at h
  cases hget : (r.stores k).get? key with
  | none => simp [hget] at h
  | some old =>
      simp only [hget, bind_eq_ok_iff] at h
      obtain ⟨mid, hmid, hdelete⟩ := h
      exact ⟨old, mid, rfl, hmid, hdelete⟩

theorem cascade_ok {depth : Nat} (h : cascade depth r k key = .ok r') :
    ∃ old mid, (r.stores k).get? key = some old ∧ sweep depth (r.without k key) k = .ok mid ∧
      r'.stores = mid.stores := by
  obtain ⟨old, mid, hold, hsweep, hdelete⟩ := cascade_onDelete h
  exact ⟨old, mid, hold, hsweep, onDelete_stores hdelete⟩

/-- What a property of the stores needs to pass from the state without the entity to the end
of a deletion: each deletion further down keeps it. -/
theorem sweep_induction {P : State → Prop} {depth : Nat} (h : sweep depth r k = .ok r')
    (hr : P r)
    (hstep : ∀ n s d (item : String × Data d) s', depth = n + 1 → d ∈ k.depends → P s →
      Data.consistent s.stores d item.2 = false → cascade n s d item.1 = .ok s' → P s') : P r' := by
  cases depth with
  | zero =>
      cases h
      exact hr
  | succ n =>
      refine foldlM_ok_induction (P := fun _ s => P s) h hr ?_
      intro done d s s' hinit hs hsweep
      have hd : d ∈ k.depends := hinit.subset (by simp)
      refine foldlM_ok_induction (P := fun _ s => P s) hsweep hs ?_
      intro _ item t t' _ ht hitem
      split at hitem
      case isTrue =>
        cases hitem
        exact ht
      case isFalse hinconsistent =>
        exact hstep n t d item t' rfl hd ht (by simpa using hinconsistent) hitem

theorem without_get?_of_ne {k' : Kind} {key' : String} (hne : (k', key') ≠ (k, key)) :
    ((r.without k key).stores k').get? key' = (r.stores k').get? key' :=
  Stores.get?_put_erase r.stores hne

theorem without_get?_self : ((r.without k key).stores k).get? key = none := by
  show ((r.stores.put k ((r.stores k).erase key)) k).get? key = none
  rw [Stores.put_self, Dict.get?_erase, if_pos rfl]

theorem without_of_ne {k' : Kind} (hne : k' ≠ k) : (r.without k key).stores k' = r.stores k' :=
  Stores.put_of_ne _ _ hne

theorem without_get?_eq :
    ((r.without k key).stores k).get? = Function.update (r.stores k).get? key none := by
  show ((r.stores.put k ((r.stores k).erase key)) k).get? = _
  rw [Stores.put_self, Dict.get?_erase_eq]

/-- A deletion only takes entities away. -/
theorem cascade_shrinks (depth : Nat) :
    ∀ {r r' : State} {k : Kind} {key : String}, cascade depth r k key = .ok r' →
      ∀ k' key', (r'.stores k').get? key' = (r.stores k').get? key' ∨
        (r'.stores k').get? key' = none := by
  induction depth with
  | zero =>
      intro r r' k key h k' key'
      obtain ⟨old, mid, -, hsweep, hstores⟩ := cascade_ok h
      cases hsweep
      rw [hstores]
      by_cases hself : (k', key') = (k, key)
      · cases hself
        exact Or.inr without_get?_self
      · exact Or.inl (without_get?_of_ne hself)
  | succ depth ih =>
      intro r r' k key h k' key'
      obtain ⟨old, mid, -, hsweep, hstores⟩ := cascade_ok h
      rw [hstores]
      refine sweep_induction (P := fun s => (s.stores k').get? key' = (r.stores k').get? key' ∨
        (s.stores k').get? key' = none) hsweep ?_ ?_
      · by_cases hself : (k', key') = (k, key)
        · cases hself
          exact Or.inr without_get?_self
        · exact Or.inl (without_get?_of_ne hself)
      · intro n s d item s' hn _ hs _ hcascade
        cases hn
        rcases ih hcascade k' key' with hsame | hgone
        · rw [hsame]
          exact hs
        · exact Or.inr hgone

/-- A deletion leaves the stores that are not below its own alone, but for its key. -/
theorem cascade_above (depth : Nat) :
    ∀ {r r' : State} {k : Kind} {key : String}, cascade depth r k key = .ok r' →
      ∀ k' key', k.level ≤ k'.level → (k', key') ≠ (k, key) →
        (r'.stores k').get? key' = (r.stores k').get? key' := by
  induction depth with
  | zero =>
      intro r r' k key h k' key' _ hne
      obtain ⟨old, mid, -, hsweep, hstores⟩ := cascade_ok h
      cases hsweep
      rw [hstores]
      exact without_get?_of_ne hne
  | succ depth ih =>
      intro r r' k key h k' key' hlevel hne
      obtain ⟨old, mid, -, hsweep, hstores⟩ := cascade_ok h
      rw [hstores]
      refine sweep_induction (P := fun s => (s.stores k').get? key' = (r.stores k').get? key')
        hsweep (without_get?_of_ne hne) ?_
      intro n s d item s' hn hd hs _ hcascade
      cases hn
      have hlt := Kind.level_lt_of_mem_depends hd
      have hne' : (k', key') ≠ (d, item.1) := fun heq => by
        rw [show k' = d from (Prod.ext_iff.1 heq).1] at hlevel
        omega
      rw [ih hcascade k' key' (by omega) hne', hs]

/-- No entity dangles in `t` that does not in `s`. -/
def NoneDangling (s t : Stores) : Prop :=
  ∀ k key e, (t k).get? key = some e → Data.consistent s k e = true →
    Data.consistent t k e = true

theorem consistent_put_erase {k' : Kind} {e : Data k'} (hk' : k' ∉ k.depends)
    (he : Data.consistent r.stores k' e = true) :
    Data.consistent (r.without k key).stores k' e = true := by
  rw [Data.consistent_iff] at he ⊢
  intro ref href
  have hne : (ref.1, ref.2) ≠ (k, key) := fun heq => by
    have hmem := Data.mem_depends_of_mem_references href
    rw [show ref.1 = k from (Prod.ext_iff.1 heq).1] at hmem
    exact hk' hmem
  have hhas := he ref href
  rw [Stores.has_iff] at hhas ⊢
  rwa [without_get?_of_ne hne]

/-- The items of a swept store are consistent at the end. -/
theorem sweepStore_consistent {depth : Nat} {d : Kind}
    (hcascade : ∀ {s s' : State} {o : String}, cascade depth s d o = .ok s' →
      NoneDangling s.stores s'.stores ∧ (s'.stores d).get? o = none ∧
        ∀ key, (s'.stores d).get? key = (s.stores d).get? key ∨ (s'.stores d).get? key = none)
    (h : sweepStore depth r d = .ok r') :
    ∀ key e, (r'.stores d).get? key = some e → Data.consistent r'.stores d e = true := by
  -- Every item done so far is gone or consistent, and the items only go away.
  have hdone : (∀ item ∈ (r.stores d).items, ∀ e, (r'.stores d).get? item.1 = some e →
        Data.consistent r'.stores d e = true) ∧
      ∀ key, (r'.stores d).get? key = (r.stores d).get? key ∨ (r'.stores d).get? key = none := by
    refine foldlM_ok_induction (P := fun done s => (∀ item ∈ done, ∀ e,
        (s.stores d).get? item.1 = some e → Data.consistent s.stores d e = true) ∧
      ∀ key, (s.stores d).get? key = (r.stores d).get? key ∨ (s.stores d).get? key = none) h
      ⟨by simp, fun key => Or.inl rfl⟩ ?_
    rintro done item s s' hinit ⟨hs, hshrinks⟩ hitem
    split at hitem
    case isTrue hconsistent =>
      cases hitem
      refine ⟨fun i hi e he => ?_, hshrinks⟩
      rcases List.mem_append.1 hi with hi | hi
      · exact hs i hi e he
      · rw [List.mem_singleton] at hi
        subst hi
        have hmem : i ∈ (r.stores d).items := hinit.subset (by simp)
        rcases hshrinks i.1 with hsame | hgone
        · rw [he, Dict.mem_items_iff.1 hmem, Option.some.injEq] at hsame
          exact hsame ▸ hconsistent
        · rw [hgone] at he
          cases he
    case isFalse =>
      obtain ⟨hnone, hself, hless⟩ := hcascade hitem
      refine ⟨fun i hi e he => ?_, fun key => ?_⟩
      · rcases List.mem_append.1 hi with hi | hi
        · have hbefore : (s.stores d).get? i.1 = some e := by
            rcases hless i.1 with hsame | hgone
            · rwa [← hsame]
            · rw [hgone] at he
              cases he
          exact hnone d i.1 e he (hs i hi e hbefore)
        · rw [List.mem_singleton] at hi
          subst hi
          rw [hself] at he
          cases he
      · rcases hless key with hsame | hgone
        · rw [hsame]
          exact hshrinks key
        · exact Or.inr hgone
  intro key e he
  have hstored : (r.stores d).get? key = some e := by
    rcases hdone.2 key with hsame | hgone
    · rwa [← hsame]
    · rw [hgone] at he
      cases he
  exact hdone.1 (key, e) (Dict.mem_items_iff.2 hstored) e he

theorem cascade_removes {depth : Nat} (h : cascade depth r k key = .ok r') :
    (r'.stores k).get? key = none := by
  obtain ⟨old, mid, -, hsweep, hstores⟩ := cascade_ok h
  rw [hstores]
  refine sweep_induction (P := fun s => (s.stores k).get? key = none) hsweep without_get?_self ?_
  intro n s d item s' _ _ hs _ hcascade
  rcases cascade_shrinks n hcascade k key with hsame | hgone
  · rw [hsame, hs]
  · exact hgone

/-- A deletion that goes down far enough leaves no new dangling reference. -/
theorem cascade_noneDangling (depth : Nat) :
    ∀ {r r' : State} {k : Kind} {key : String}, k.level ≤ depth → cascade depth r k key = .ok r' →
      NoneDangling r.stores r'.stores := by
  induction depth with
  | zero =>
      intro r r' k key hlevel h k' key' e he hconsistent
      obtain ⟨old, mid, -, hsweep, hstores⟩ := cascade_ok h
      cases hsweep
      rw [hstores]
      have hdepends : k' ∉ k.depends := fun hmem => by
        have := Kind.level_lt_of_mem_depends hmem
        omega
      exact consistent_put_erase hdepends hconsistent
  | succ depth ih =>
      intro r r' k key hlevel h k' key' e he hconsistent
      obtain ⟨old, mid, -, hsweep, hstores⟩ := cascade_ok h
      rw [hstores] at he ⊢
      have hlower : ∀ d ∈ k.depends, d.level ≤ depth := fun d hd => by
        have := Kind.level_lt_of_mem_depends hd
        omega
      -- The swept stores are consistent; the others refer to nothing of this kind.
      have hswept : (∀ d ∈ k.depends, ∀ key e, (mid.stores d).get? key = some e →
            Data.consistent mid.stores d e = true) ∧
          ∀ d, d ∉ k.depends → ∀ key e, (mid.stores d).get? key = some e →
            Data.consistent r.stores d e = true → Data.consistent mid.stores d e = true := by
        refine foldlM_ok_induction (P := fun done s =>
          (∀ d ∈ done, ∀ key e, (s.stores d).get? key = some e →
            Data.consistent s.stores d e = true) ∧
          ∀ d, d ∉ k.depends → ∀ key e, (s.stores d).get? key = some e →
            Data.consistent r.stores d e = true → Data.consistent s.stores d e = true) hsweep
          ⟨by simp, fun d hd key e _ he => consistent_put_erase hd he⟩ ?_
        rintro done d s s' hinit ⟨hdone, hothers⟩ hstore
        have hd : d ∈ k.depends := hinit.subset (by simp)
        have hkept : NoneDangling s.stores s'.stores ∧ ∀ k key,
            (s'.stores k).get? key = (s.stores k).get? key ∨ (s'.stores k).get? key = none := by
          refine foldlM_ok_induction (P := fun _ t => NoneDangling s.stores t.stores ∧ ∀ k key,
            (t.stores k).get? key = (s.stores k).get? key ∨ (t.stores k).get? key = none) hstore
            ⟨fun _ _ _ _ he => he, fun _ _ => Or.inl rfl⟩ ?_
          rintro _ item t t' _ ⟨ht, hless⟩ hitem
          split at hitem
          case isTrue =>
            cases hitem
            exact ⟨ht, hless⟩
          case isFalse =>
            have hnone := ih (hlower d hd) hitem
            have hshrinks := cascade_shrinks depth hitem
            refine ⟨fun k₁ key₁ e₁ he₁ hc₁ => ?_, fun k₁ key₁ => ?_⟩
            · have hbefore : (t.stores k₁).get? key₁ = some e₁ := by
                rcases hshrinks k₁ key₁ with hsame | hgone
                · rwa [← hsame]
                · rw [hgone] at he₁
                  cases he₁
              exact hnone k₁ key₁ e₁ he₁ (ht k₁ key₁ e₁ hbefore hc₁)
            · rcases hshrinks k₁ key₁ with hsame | hgone
              · rw [hsame]
                exact hless k₁ key₁
              · exact Or.inr hgone
        have hbefore : ∀ k₁ key₁ e₁, (s'.stores k₁).get? key₁ = some e₁ →
            (s.stores k₁).get? key₁ = some e₁ := by
          intro k₁ key₁ e₁ he₁
          rcases hkept.2 k₁ key₁ with hsame | hgone
          · rwa [← hsame]
          · rw [hgone] at he₁
            cases he₁
        refine ⟨fun d₁ hd₁ key₁ e₁ he₁ => ?_, fun d₁ hd₁ key₁ e₁ he₁ hc₁ => ?_⟩
        · rcases List.mem_append.1 hd₁ with hd₁ | hd₁
          · exact hkept.1 d₁ key₁ e₁ he₁ (hdone d₁ hd₁ key₁ e₁ (hbefore _ _ _ he₁))
          · rw [List.mem_singleton] at hd₁
            subst hd₁
            refine sweepStore_consistent ?_ hstore key₁ e₁ he₁
            intro t t' o hcascade
            exact ⟨ih (hlower _ hd) hcascade, cascade_removes hcascade,
              fun key => cascade_shrinks depth hcascade _ key⟩
        · exact hkept.1 d₁ key₁ e₁ he₁ (hothers d₁ hd₁ key₁ e₁ (hbefore _ _ _ he₁) hc₁)
      by_cases hk' : k' ∈ k.depends
      · exact hswept.1 k' hk' key' e he
      · exact hswept.2 k' hk' key' e he hconsistent

/-- The entities missing in `s` depend on the root. -/
def Within (base : Stores) (root : Kind × String) (s : Stores) : Prop :=
  ∀ k key, (s k).get? key = (base k).get? key ∨
    ((s k).get? key = none ∧ Relation.ReflTransGen (DependsOn base) (k, key) root)

theorem without_within {base : Stores} {root : Kind × String} (hr : Within base root r.stores)
    (hroot : Relation.ReflTransGen (DependsOn base) (k, key) root) :
    Within base root (r.without k key).stores := by
  intro k' key'
  by_cases hself : (k', key') = (k, key)
  · cases hself
    exact Or.inr ⟨without_get?_self, hroot⟩
  · rw [without_get?_of_ne hself]
    exact hr k' key'

/-- A deletion removes only what depends on the root. -/
theorem cascade_within {base : Stores} {root : Kind × String} (hbase : Integral base) (depth : Nat) :
    ∀ {r r' : State} {k : Kind} {key : String}, Within base root r.stores →
      Relation.ReflTransGen (DependsOn base) (k, key) root → cascade depth r k key = .ok r' →
      Within base root r'.stores := by
  induction depth with
  | zero =>
      intro r r' k key hr hroot h
      obtain ⟨old, mid, -, hsweep, hstores⟩ := cascade_ok h
      cases hsweep
      rw [hstores]
      exact without_within hr hroot
  | succ depth ih =>
      intro r r' k key hr hroot h
      obtain ⟨old, mid, -, hsweep, hstores⟩ := cascade_ok h
      rw [hstores]
      refine foldlM_ok_induction (P := fun _ s => Within base root s.stores) hsweep
        (without_within hr hroot) ?_
      intro _ d s s' _ hs hstore
      refine foldlM_ok_induction (P := fun _ s => Within base root s.stores) hstore hs ?_
      intro done item t t' hinit ht hitem
      split at hitem
      case isTrue =>
        cases hitem
        exact ht
      case isFalse hinconsistent =>
        -- The item is stored in the base, where its references resolve; one of them is gone.
        have hmem : item ∈ (s.stores d).items := hinit.subset (by simp)
        have hstored : (base d).get? item.1 = some item.2 := by
          have hget := Dict.mem_items_iff.1 hmem
          rcases hs d item.1 with hsame | ⟨hgone, -⟩
          · rw [← hsame, hget]
          · rw [hgone] at hget
            cases hget
        have href : ∃ ref ∈ Data.references d item.2, t.stores.has ref.1 ref.2 = false := by
          by_contra hnone
          push Not at hnone
          refine hinconsistent ((Data.consistent_iff _ _ _).2 fun ref href => ?_)
          simpa using hnone ref href
        obtain ⟨ref, href, hmissing⟩ := href
        have hresolved := (Data.consistent_iff _ _ _).1 (hbase d item.1 item.2 hstored) ref href
        have hdoomed : Relation.ReflTransGen (DependsOn base) (ref.1, ref.2) root := by
          rcases ht ref.1 ref.2 with hsame | ⟨-, hdoomed⟩
          · unfold Stores.has at hmissing hresolved
            rw [hsame, hresolved] at hmissing
            cases hmissing
          · exact hdoomed
        have hdepends : DependsOn base (d, item.1) (ref.1, ref.2) := ⟨item.2, hstored, href⟩
        exact ih ht (Relation.ReflTransGen.head hdepends hdoomed) hitem

end State

/-! ## Whole runs -/

/-- What a deletion should do: take away an entity and all that depends on it, and nothing
else. -/
def DeletesDependents (s : Stores) (root : Kind × String) (t : Stores) : Prop :=
  ∀ k key, (Relation.ReflTransGen (DependsOn s) (k, key) root → (t k).get? key = none) ∧
    (¬ Relation.ReflTransGen (DependsOn s) (k, key) root → (t k).get? key = (s k).get? key)

namespace State

variable {r r' : State} {k : Kind} {key : String}

theorem delete_integral (hr : Integral r.stores) (h : r.delete k key = .ok r') :
    Integral r'.stores := by
  intro k' key' e he
  refine cascade_noneDangling k.level (le_refl _) h k' key' e he ?_
  rcases cascade_shrinks k.level h k' key' with hsame | hgone
  · exact hr k' key' e (hsame ▸ he)
  · rw [hgone] at he
    cases he

theorem delete_deletesDependents (hr : Integral r.stores) (h : r.delete k key = .ok r') :
    DeletesDependents r.stores (k, key) r'.stores := by
  have hwithin : Within r.stores (k, key) r'.stores :=
    cascade_within hr k.level (fun _ _ => Or.inl rfl) Relation.ReflTransGen.refl h
  have hintegral := delete_integral hr h
  intro k' key'
  constructor
  · intro hdoomed
    generalize hx : (k', key') = x at hdoomed
    induction hdoomed using Relation.ReflTransGen.head_induction_on generalizing k' key' with
    | refl =>
        cases hx
        exact cascade_removes h
    | @head x y hxy _ ih =>
        subst hx
        obtain ⟨e, he, href⟩ := hxy
        rw [Option.eq_none_iff_forall_ne_some]
        intro e' he'
        have hsame : e' = e := by
          rcases hwithin k' key' with hsame | ⟨hgone, -⟩
          · rw [he', he] at hsame
            exact Option.some.inj hsame
          · rw [hgone] at he'
            cases he'
        subst hsame
        have hhas := (Data.consistent_iff _ _ _).1 (hintegral k' key' e' he') y href
        rw [Stores.has_iff, ih y.1 y.2 rfl] at hhas
        obtain ⟨_, hcontra⟩ := hhas
        cases hcontra
  · intro hspared
    rcases hwithin k' key' with hsame | ⟨-, hdoomed⟩
    · exact hsame
    · exact absurd hdoomed hspared

theorem run_integral {op : Op} (hr : Integral r.stores) (h : r.run op = .ok r') :
    Integral r'.stores := by
  cases op with
  | create k key data =>
      obtain ⟨-, e, he, hinsert⟩ := create_ok h
      exact integral_insert hr (consistent_of_validated he) hinsert
  | update k key data =>
      obtain ⟨-, e, he, hinsert⟩ := update_ok h
      exact integral_insert hr (consistent_of_validated he) hinsert
  | mergeList k data =>
      obtain ⟨entities, hentities, hinsert⟩ := mergeList_ok h
      have hvalidated := entitiesOf_validated hentities
      -- Storing the first entities keeps the later ones consistent.
      have hall : Integral r'.stores ∧ ∀ item ∈ entities.items,
          Data.consistent r'.stores k item.2 = true := by
        refine foldlM_ok_induction (P := fun _ s => Integral s.stores ∧ ∀ item ∈ entities.items,
          Data.consistent s.stores k item.2 = true) hinsert ⟨hr, fun item hitem => ?_⟩ ?_
        · obtain ⟨value, hvalue⟩ := hvalidated item hitem
          exact consistent_of_validated hvalue
        · rintro done item s s' hinit ⟨hs, hitems⟩ hstep
          have hmem : item ∈ entities.items := hinit.subset (by simp)
          exact ⟨integral_insert hs (hitems item hmem) hstep,
            fun other hother => consistent_of_insert hstep (hitems other hother)⟩
      exact hall.1
  | delete k key => exact delete_integral hr h
  | deleteList k =>
      refine foldlM_ok_induction (P := fun _ s => Integral s.stores) h hr ?_
      intro _ key s s' _ hs hstep
      exact delete_integral hs hstep

/-- A step ends an operation, or it is refused and the state stays as it is. -/
theorem step_cases {op : Op} (h : r.step op = some r') : r.run op = .ok r' ∨ r' = r := by
  unfold step at h
  split at h
  case h_1 r'' hrun => exact Or.inl (by rw [hrun, Option.some.inj h])
  case h_2 => cases h
  case h_3 => exact Or.inr (Option.some.inj h).symm

end State

theorem integral_empty : Integral State.empty.stores := by
  intro k key e he
  simp [State.empty, Stores.empty, Dict.get?_empty] at he

theorem integral_of_reachable {r : State} (h : rankingMachine.Reachable r) :
    Integral r.stores := by
  refine Machine.Reachable.invariant (I := fun r => Integral r.stores) ?_ ?_ h
  · rintro s rfl
    exact integral_empty
  · intro s op t hs hstep
    rcases State.step_cases hstep with hrun | rfl
    · exact State.run_integral hs hrun
    · exact hs

/-! Requests of a small ranking. -/

def contestData : PyValue :=
  .dict [("name", .str "Contest"), ("begin", .int 0), ("end", .int 100), ("score_precision", .int 2)]

def taskData (scoreMode : String) : PyValue :=
  .dict [("name", .str "Task"), ("short_name", .str "task"), ("contest", .str "contest"),
    ("max_score", .float 100), ("score_precision", .int 2), ("extra_headers", .list []),
    ("order", .int 0), ("score_mode", .str scoreMode)]

def userData : PyValue :=
  .dict [("f_name", .str "First"), ("l_name", .str "Last"), ("team", .none)]

def submissionData (user : String) (time : ℤ) : PyValue :=
  .dict [("user", .str user), ("task", .str "task"), ("time", .int time)]

def scoreData (submission : String) (time : ℤ) (score : ℚ) : PyValue :=
  .dict [("submission", .str submission), ("time", .int time), ("score", .float score)]

/-- A ranking with one scored submission. -/
def smallRanking : State :=
  (rankingMachine.exec State.empty
    [.create .contest "contest" contestData, .create .task "task" (taskData "max"),
      .create .user "user" userData, .create .submission "s1" (submissionData "user" 10),
      .create .subchange "s1s" (scoreData "s1" 10 40)]).get (by decide +kernel)

end Ranking
end ContestManagement
