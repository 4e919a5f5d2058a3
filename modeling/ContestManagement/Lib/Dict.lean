import Mathlib.Data.List.Induction
import Mathlib.Data.List.Nodup
import Mathlib.Tactic.Common

/-!
# Dictionaries in insertion order

A dictionary gives out its items in the order in which its keys were first set, and
setting a key again keeps its place.  `updates` merges a list of dictionaries, the later
ones over the earlier ones.
-/

namespace ContestManagement
namespace Lib

/-- A dictionary: a list of items with distinct keys. -/
structure Dict (κ β : Type) where
  items : List (κ × β)
  distinct : (items.map Prod.fst).Nodup
  deriving DecidableEq

namespace Dict

variable {κ β : Type}

def empty : Dict κ β := ⟨[], List.nodup_nil⟩

def singleton (key : κ) (value : β) : Dict κ β := ⟨[(key, value)], List.nodup_singleton _⟩

def keys (d : Dict κ β) : List κ := d.items.map Prod.fst

/-- The dictionary with each value changed. -/
def mapValues {γ : Type} (f : β → γ) (d : Dict κ β) : Dict κ γ :=
  ⟨d.items.map fun item => (item.1, f item.2), by simpa [Function.comp_def] using d.distinct⟩

/-- The items whose values pass a test. -/
def filterValues (p : β → Bool) (d : Dict κ β) : Dict κ β :=
  ⟨d.items.filter fun item => p item.2, d.distinct.sublist (List.filter_sublist.map _)⟩

variable [DecidableEq κ]

/-- `d.get(key)`. -/
def get? (d : Dict κ β) (key : κ) : Option β := d.items.lookup key

/-- Set a key in a list of items. -/
def setItem (key : κ) (value : β) : List (κ × β) → List (κ × β)
  | [] => [(key, value)]
  | item :: rest => if item.1 = key then (key, value) :: rest else item :: setItem key value rest

theorem mem_keys_setItem {key : κ} {value : β} {items : List (κ × β)} {other : κ} :
    other ∈ (setItem key value items).map Prod.fst ↔ other = key ∨ other ∈ items.map Prod.fst := by
  induction items with
  | nil => simp [setItem]
  | cons item rest ih =>
      unfold setItem
      split
      case isTrue heq =>
        subst heq
        simp
      case isFalse =>
        rw [List.map_cons, List.mem_cons, ih, List.map_cons, List.mem_cons]
        tauto

theorem nodup_setItem (key : κ) (value : β) {items : List (κ × β)}
    (h : (items.map Prod.fst).Nodup) : ((setItem key value items).map Prod.fst).Nodup := by
  induction items with
  | nil => simp [setItem]
  | cons item rest ih =>
      rw [List.map_cons, List.nodup_cons] at h
      unfold setItem
      split
      case isTrue heq =>
        subst heq
        exact List.nodup_cons.2 h
      case isFalse hne =>
        rw [List.map_cons, List.nodup_cons, mem_keys_setItem]
        exact ⟨not_or.2 ⟨hne, h.1⟩, ih h.2⟩

/-- `d[key] = value`. -/
def set (d : Dict κ β) (key : κ) (value : β) : Dict κ β :=
  ⟨setItem key value d.items, nodup_setItem key value d.distinct⟩

/-- `d.pop(key, None)`. -/
def erase (d : Dict κ β) (key : κ) : Dict κ β :=
  ⟨d.items.filter fun item => item.1 ≠ key, d.distinct.sublist (List.filter_sublist.map _)⟩

/-- `d.update(other)`. -/
def update (d other : Dict κ β) : Dict κ β :=
  other.items.foldl (fun d item => d.set item.1 item.2) d

/-- The dictionaries of a list, merged in order. -/
def updates (ds : List (Dict κ β)) : Dict κ β :=
  ds.foldl update empty

theorem lookup_item (key : κ) (item : κ × β) (rest : List (κ × β)) :
    (item :: rest).lookup key = if key = item.1 then some item.2 else rest.lookup key := by
  rw [List.lookup_cons]
  by_cases h : key = item.1
  · simp [h]
  · have hbeq : (key == item.1) = false := by simp [h]
    rw [hbeq, if_neg h]

theorem lookup_eq_none {items : List (κ × β)} {key : κ} (h : key ∉ items.map Prod.fst) :
    items.lookup key = none := by
  rw [List.lookup_eq_none_iff]
  intro item hitem
  have hne : key ≠ item.1 := fun heq => h (List.mem_map.2 ⟨item, hitem, heq.symm⟩)
  simp [hne]

theorem get?_empty (key : κ) : (empty : Dict κ β).get? key = none := rfl

theorem get?_singleton (key : κ) (value : β) (other : κ) :
    (singleton key value).get? other = if other = key then some value else none := by
  unfold get? singleton
  rw [lookup_item, List.lookup_nil]

theorem mem_items_iff {d : Dict κ β} {key : κ} {value : β} :
    (key, value) ∈ d.items ↔ d.get? key = some value := by
  obtain ⟨items, distinct⟩ := d
  unfold get?
  induction items with
  | nil => simp
  | cons item rest ih =>
      rw [List.map_cons, List.nodup_cons] at distinct
      rw [List.mem_cons, lookup_item, ih distinct.2]
      by_cases heq : key = item.1
      · subst heq
        have hrest : rest.lookup item.1 ≠ some value := fun h =>
          distinct.1 (List.mem_map.2 ⟨_, (ih distinct.2).2 h, rfl⟩)
        simp [hrest, Prod.ext_iff, eq_comm]
      · simp [heq, Prod.ext_iff]

theorem lookup_eq_some_iff {items : List (κ × β)} (distinct : (items.map Prod.fst).Nodup) {key : κ}
    {value : β} : items.lookup key = some value ↔ (key, value) ∈ items :=
  (mem_items_iff (d := ⟨items, distinct⟩)).symm

theorem get?_eq_of_perm {d d' : Dict κ β} (h : d.items.Perm d'.items) (key : κ) :
    d.get? key = d'.get? key := by
  refine Option.ext fun value => ?_
  rw [← mem_items_iff, ← mem_items_iff, h.mem_iff]

theorem perm_of_get? {d d' : Dict κ β} (h : ∀ key, d.get? key = d'.get? key) :
    d.items.Perm d'.items := by
  refine (List.perm_ext_iff_of_nodup (d.distinct.of_map _) (d'.distinct.of_map _)).2 ?_
  rintro ⟨key, value⟩
  rw [mem_items_iff, mem_items_iff, h key]

theorem get?_iff_of_filter_perm {d d' : Dict κ β} {p : β → Bool}
    (h : (d.items.filter fun item => p item.2).Perm (d'.items.filter fun item => p item.2))
    (key : κ) (value : β) (hvalue : p value = true) :
    d'.get? key = some value ↔ d.get? key = some value := by
  have hmem := h.mem_iff (a := (key, value))
  rw [List.mem_filter, List.mem_filter, mem_items_iff, mem_items_iff] at hmem
  exact ⟨fun h' => (hmem.2 ⟨h', hvalue⟩).1, fun h' => (hmem.1 ⟨h', hvalue⟩).1⟩

theorem mem_keys_iff {d : Dict κ β} {key : κ} : key ∈ d.keys ↔ ∃ value, d.get? key = some value := by
  unfold keys
  rw [List.mem_map]
  constructor
  · rintro ⟨⟨k, value⟩, hmem, rfl⟩
    exact ⟨value, mem_items_iff.1 hmem⟩
  · rintro ⟨value, h⟩
    exact ⟨(key, value), mem_items_iff.2 h, rfl⟩

theorem get?_set (d : Dict κ β) (key : κ) (value : β) (other : κ) :
    (d.set key value).get? other = if other = key then some value else d.get? other := by
  obtain ⟨items, distinct⟩ := d
  unfold get? set
  induction items with
  | nil =>
      simp only [setItem]
      rw [lookup_item]
  | cons item rest ih =>
      rw [List.map_cons, List.nodup_cons] at distinct
      simp only [setItem]
      split
      case isTrue heq =>
        subst heq
        simp only [lookup_item]
        split <;> rfl
      case isFalse hne =>
        rw [lookup_item, lookup_item, ih distinct.2]
        by_cases hother : other = key
        · subst hother
          rw [if_neg (Ne.symm hne), if_pos rfl, if_pos rfl]
        · rw [if_neg hother, if_neg hother]

theorem get?_erase (d : Dict κ β) (key other : κ) :
    (d.erase key).get? other = if other = key then none else d.get? other := by
  split
  case isTrue heq =>
    subst heq
    rw [Option.eq_none_iff_forall_ne_some]
    intro value h
    rw [← mem_items_iff] at h
    simp [erase] at h
  case isFalse hne =>
    refine Option.ext fun value => ?_
    rw [← mem_items_iff, ← mem_items_iff]
    simp [erase, hne]

theorem get?_set_eq (d : Dict κ β) (key : κ) (value : β) :
    (d.set key value).get? = Function.update d.get? key (some value) := by
  funext other
  rw [get?_set, Function.update_apply]

theorem get?_erase_eq (d : Dict κ β) (key : κ) :
    (d.erase key).get? = Function.update d.get? key none := by
  funext other
  rw [get?_erase, Function.update_apply]

theorem get?_mapValues {γ : Type} (f : β → γ) (d : Dict κ β) (key : κ) :
    (d.mapValues f).get? key = (d.get? key).map f := by
  show (d.items.map fun item => (item.1, f item.2)).lookup key = (d.items.lookup key).map f
  induction d.items with
  | nil => rfl
  | cons item rest ih =>
      rw [List.map_cons, lookup_item, lookup_item, ih]
      split <;> rfl

omit [DecidableEq κ] in
@[simp] theorem keys_mapValues {γ : Type} (f : β → γ) (d : Dict κ β) :
    (d.mapValues f).keys = d.keys := by
  simp [keys, mapValues, Function.comp_def]

theorem items_eq (d : Dict κ β) :
    d.items = d.keys.filterMap fun key => (d.get? key).map fun value => (key, value) := by
  obtain ⟨items, distinct⟩ := d
  unfold keys get?
  induction items with
  | nil => rfl
  | cons item rest ih =>
      have hrest := distinct
      rw [List.map_cons, List.nodup_cons] at hrest
      have hself : (item :: rest).lookup item.1 = some item.2 := by rw [lookup_item, if_pos rfl]
      -- The keys behind the first are not its key.
      have hbehind : (rest.map Prod.fst).filterMap
          (fun key => ((item :: rest).lookup key).map fun value => (key, value)) = rest := by
        refine Eq.trans (List.filterMap_congr fun key hkey => ?_) (ih hrest.2).symm
        have hne : key ≠ item.1 := by
          rintro rfl
          exact hrest.1 hkey
        rw [lookup_item, if_neg hne]
      simp only [List.map_cons, List.filterMap_cons, hself, Option.map_some, hbehind]

/-- The order of the keys and the values of the keys make the dictionary. -/
theorem ext_keys {d d' : Dict κ β} (hkeys : d.keys = d'.keys)
    (hget : ∀ key, d.get? key = d'.get? key) : d = d' := by
  have hitems : d.items = d'.items := by
    rw [items_eq d, items_eq d', hkeys]
    exact List.filterMap_congr fun key _ => by rw [hget]
  cases d
  cases d'
  cases hitems
  rfl

theorem keys_set_of_get? {d : Dict κ β} {key : κ} {value new : β} (h : d.get? key = some value) :
    (d.set key new).keys = d.keys := by
  obtain ⟨items, distinct⟩ := d
  unfold get? at h
  unfold keys set
  dsimp only at h ⊢
  induction items with
  | nil => cases h
  | cons item rest ih =>
      rw [List.map_cons, List.nodup_cons] at distinct
      unfold setItem
      split
      case isTrue heq =>
        rw [← heq]
        rfl
      case isFalse hne =>
        rw [lookup_item, if_neg (Ne.symm hne)] at h
        rw [List.map_cons, List.map_cons, ih distinct.2 h]

/-- Setting a key that is there changes one item. -/
theorem items_set_of_get? {d : Dict κ β} {key : κ} {value : β} (h : d.get? key = some value)
    (new : β) : ∃ before after, d.items = before ++ (key, value) :: after ∧
      (d.set key new).items = before ++ (key, new) :: after := by
  obtain ⟨items, distinct⟩ := d
  unfold get? at h
  show ∃ before after, items = before ++ (key, value) :: after ∧
    setItem key new items = before ++ (key, new) :: after
  dsimp only at h
  induction items with
  | nil => cases h
  | cons item rest ih =>
      rw [List.map_cons, List.nodup_cons] at distinct
      rw [lookup_item] at h
      unfold setItem
      by_cases heq : item.1 = key
      · rw [if_pos heq.symm, Option.some.injEq] at h
        rw [if_pos heq]
        exact ⟨[], rest, by rw [← heq, ← h]; rfl, rfl⟩
      · rw [if_neg (Ne.symm heq)] at h
        rw [if_neg heq]
        obtain ⟨before, after, hitems, hset⟩ := ih distinct.2 h
        exact ⟨item :: before, after, by rw [hitems]; rfl, by rw [hset]; rfl⟩

/-- Setting a key to its value changes nothing. -/
theorem set_eq_self {d : Dict κ β} {key : κ} {value : β} (h : d.get? key = some value) :
    d.set key value = d := by
  refine ext_keys (keys_set_of_get? h) fun other => ?_
  rw [get?_set]
  split
  case isTrue hsame => rw [hsame, h]
  case isFalse => rfl

theorem items_set_of_none {d : Dict κ β} {key : κ} {new : β} (h : d.get? key = none) :
    (d.set key new).items = d.items ++ [(key, new)] := by
  obtain ⟨items, distinct⟩ := d
  unfold get? at h
  unfold set
  dsimp only at h ⊢
  induction items with
  | nil => rfl
  | cons item rest ih =>
      rw [List.map_cons, List.nodup_cons] at distinct
      unfold setItem
      split
      case isTrue heq =>
        rw [lookup_item, if_pos heq.symm] at h
        cases h
      case isFalse hne =>
        rw [lookup_item, if_neg (Ne.symm hne)] at h
        rw [ih distinct.2 h, List.cons_append]

theorem keys_set_of_none {d : Dict κ β} {key : κ} {new : β} (h : d.get? key = none) :
    (d.set key new).keys = d.keys ++ [key] := by
  unfold keys
  rw [items_set_of_none h, List.map_append, List.map_singleton]

theorem get?_filterValues (p : β → Bool) (d : Dict κ β) (key : κ) :
    (d.filterValues p).get? key = (d.get? key).filter p := by
  refine Option.ext fun value => ?_
  rw [← mem_items_iff, Option.mem_def.symm, Option.mem_filter_iff, Option.mem_def, ← mem_items_iff]
  simp [filterValues]

/-- Set each key of another dictionary to what a function makes of the value so far and of the
other one. -/
def mergeWith {γ : Type} (f : Option β → γ → β) (d : Dict κ β) (other : Dict κ γ) : Dict κ β :=
  other.items.foldl (fun d item => d.set item.1 (f (d.get? item.1) item.2)) d

theorem get?_mergeWith {γ : Type} (f : Option β → γ → β) (d : Dict κ β) (other : Dict κ γ)
    (key : κ) :
    (d.mergeWith f other).get? key =
      match other.get? key with
      | some value => some (f (d.get? key) value)
      | none => d.get? key := by
  obtain ⟨items, distinct⟩ := other
  unfold mergeWith
  -- Once the first item is set, the others leave its key alone.
  induction items generalizing d with
  | nil => rfl
  | cons item rest ih =>
      rw [List.map_cons, List.nodup_cons] at distinct
      rw [List.foldl_cons, ih _ distinct.2, get?_set]
      unfold get?
      rw [lookup_item]
      by_cases heq : key = item.1
      · subst heq
        simp [lookup_eq_none distinct.1]
      · simp [heq]

/-- Values that are found by a key of their own. -/
theorem lookup_map_key {γ : Type} (keyOf : γ → κ) (values : List γ) (key : κ) :
    (values.map fun value => (keyOf value, value)).lookup key =
      values.find? fun value => keyOf value = key := by
  induction values with
  | nil => rfl
  | cons first rest ih =>
      rw [List.map_cons, lookup_item, ih]
      by_cases heq : keyOf first = key
      · rw [if_pos heq.symm, List.find?_cons_of_pos (by simpa using heq)]
      · rw [if_neg (Ne.symm heq), List.find?_cons_of_neg (by simpa using heq)]

/-- Each value changes what its key has, once. -/
theorem get?_foldl_set {γ : Type} (keyOf : γ → κ) (note : γ → Option β → β) {values : List γ}
    (hdistinct : (values.map keyOf).Nodup) (d : Dict κ β) (key : κ) :
    (values.foldl (fun d value => d.set (keyOf value) (note value (d.get? (keyOf value)))) d).get? key =
      match values.find? fun value => keyOf value = key with
      | some value => some (note value (d.get? key))
      | none => d.get? key := by
  have hkeys : ((values.map fun value => (keyOf value, value)).map Prod.fst).Nodup := by
    rwa [List.map_map]
  have hmerge := get?_mergeWith (fun known value => note value known) d ⟨_, hkeys⟩ key
  rw [mergeWith, List.foldl_map] at hmerge
  rw [hmerge, get?, lookup_map_key]

theorem get?_update (d other : Dict κ β) (key : κ) :
    (d.update other).get? key = (other.get? key).or (d.get? key) := by
  have hmerge : d.update other = d.mergeWith (fun _ value => value) other := rfl
  rw [hmerge, get?_mergeWith]
  cases other.get? key with
  | none => rfl
  | some value => rfl

theorem updates_concat (ds : List (Dict κ β)) (d : Dict κ β) :
    updates (ds ++ [d]) = (updates ds).update d := by
  simp [updates]

/-- A merged dictionary has, for each key, the value of the last one that has the key. -/
theorem get?_updates (ds : List (Dict κ β)) (key : κ) :
    (updates ds).get? key = (ds.filterMap fun d => d.get? key).getLast? := by
  induction ds using List.reverseRecOn with
  | nil => rfl
  | append_singleton ds d ih =>
      rw [updates_concat, get?_update, ih, List.filterMap_append]
      cases hd : d.get? key with
      | none => simp [hd]
      | some value => simp [hd]

/-- The dictionary with some keys set, each to its value. -/
def setAll (d : Dict κ β) (keys : List κ) (value : κ → β) : Dict κ β :=
  keys.foldl (fun d key => d.set key (value key)) d

theorem setAll_cons (d : Dict κ β) (key : κ) (keys : List κ) (value : κ → β) :
    d.setAll (key :: keys) value = (d.set key (value key)).setAll keys value := rfl

theorem get?_setAll (d : Dict κ β) (keys : List κ) (value : κ → β) (key : κ) :
    (d.setAll keys value).get? key = if key ∈ keys then some (value key) else d.get? key := by
  induction keys generalizing d with
  | nil => simp [setAll]
  | cons first rest ih =>
      rw [setAll_cons, ih, get?_set]
      by_cases hrest : key ∈ rest
      · rw [if_pos hrest, if_pos (List.mem_cons_of_mem first hrest)]
      · by_cases heq : key = first
        · subst heq
          rw [if_neg hrest, if_pos rfl, if_pos List.mem_cons_self]
        · rw [if_neg hrest, if_neg heq, if_neg]
          simp [hrest, heq]

end Dict

end Lib
end ContestManagement
