import Mathlib.Data.List.Forall2
import Mathlib.Data.List.Induction
import Mathlib.Data.List.Sort
import Mathlib.Data.Rat.Defs
import Mathlib.Order.Lattice
import Mathlib.Tactic.Common

/-!
# JSON values and exceptions

The values that a JSON column holds, read the way Python reads them: a boolean is
an integer, indexing a list or a dictionary may raise, and slices accept negative
ends.  Computations that may raise live in `Except PyError`.
-/

namespace ContestManagement
namespace Lib

/-- What a computation raises. -/
inductive PyError where
  | valueError (message : String)
  | typeError
  | keyError (key : String)
  | indexError
  | assertionError (message : String)
  /-- No exception: the code goes on with an infinity, or with what is not a number. -/
  | notFinite
  /-- A `ValueError` that quotes the exception behind it. -/
  | because (message : String) (cause : PyError)
  deriving DecidableEq, Repr

/-- A decoded JSON value. -/
inductive PyValue where
  | none
  | bool (b : Bool)
  | int (i : ℤ)
  | float (q : ℚ)
  | str (s : String)
  | list (values : List PyValue)
  | dict (items : List (String × PyValue))

namespace PyValue

/-- `isinstance(value, int)`: a boolean is one. -/
def int? : PyValue → Option ℤ
  | bool b => some (if b then 1 else 0)
  | int i => some i
  | _ => Option.none

/-- An integer that is not a boolean. -/
def strictInt? : PyValue → Option ℤ
  | int i => some i
  | _ => Option.none

def str? : PyValue → Option String
  | str s => some s
  | _ => Option.none

/-- A list of strings. -/
def strings? : PyValue → Option (List String)
  | list values => values.mapM str?
  | _ => Option.none

/-- A value that can be compared with numbers. -/
def number? : PyValue → Option ℚ
  | bool b => some (if b then 1 else 0)
  | int i => some i
  | float q => some q
  | _ => Option.none

/-- `value[position]` for a list and `value[key]` for a dictionary. -/
def item (value : PyValue) (position : Nat) (key : String) : Except PyError PyValue :=
  match value with
  | list values =>
      match values[position]? with
      | some v => .ok v
      | Option.none => .error .indexError
  | dict items =>
      match items.lookup key with
      | some v => .ok v
      | Option.none => .error (.keyError key)
  | _ => .error .typeError

/-- `value.get(key)` of a dictionary; nothing for other values. -/
def get? (value : PyValue) (key : String) : Option PyValue :=
  match value with
  | dict items => items.lookup key
  | _ => Option.none

/-- `bool(value)`. -/
def truthy : PyValue → Bool
  | none => false
  | bool b => b
  | int i => i ≠ 0
  | float q => q ≠ 0
  | str s => s ≠ ""
  | list values => !values.isEmpty
  | dict items => !items.isEmpty

/-- The values that iterating over this one gives. -/
def elements : PyValue → Except PyError (List PyValue)
  | list values => .ok values
  | dict items => .ok (items.map fun item => str item.1)
  | str s => .ok (s.toList.map fun c => str (String.singleton c))
  | _ => .error .typeError

end PyValue

section Slices

variable {α : Type*}

/-- The position that an end of a slice stands for, in a list of `length` elements. -/
def slicePosition (length : Nat) (i : ℤ) : Nat :=
  if i < 0 then (i + length).toNat else min i.toNat length

/-- `values[start:stop]`. -/
def slice (values : List α) (start stop : ℤ) : List α :=
  let first := slicePosition values.length start
  let last := slicePosition values.length stop
  (values.drop first).take (last - first)

end Slices

/-- A member of a list has a place in it. -/
theorem exists_mem_zipIdx_of_mem {α : Type*} {values : List α} {x : α} (h : x ∈ values) :
    ∃ index, (x, index) ∈ values.zipIdx := by
  obtain ⟨index, hindex, rfl⟩ := List.getElem_of_mem h
  exact ⟨index, List.mem_zipIdx_iff_getElem?.2 (List.getElem?_eq_getElem hindex)⟩

/-- In a table without repeated keys a row is found by its key. -/
theorem find?_key_eq_some_iff {α κ : Type} [DecidableEq κ] {key : α → κ} {table : List α}
    (hdistinct : (table.map key).Nodup) {k : κ} {row : α} :
    (table.find? fun row => key row = k) = some row ↔ row ∈ table ∧ key row = k := by
  constructor
  · intro hfind
    exact ⟨List.mem_of_find?_eq_some hfind, by simpa using List.find?_some hfind⟩
  · rintro ⟨hmem, hrow⟩
    cases hfind : table.find? fun row => key row = k with
    | none =>
        have hnot := List.find?_eq_none.1 hfind row hmem
        simp [hrow] at hnot
    | some other =>
        have hother : key other = k := by simpa using List.find?_some hfind
        rw [List.inj_on_of_nodup_map hdistinct (List.mem_of_find?_eq_some hfind) hmem
          (hother.trans hrow.symm)]

/-- `sorted` of strings: by code points. -/
def sortedStrings (values : List String) : List String :=
  values.insertionSort (· ≤ ·)

theorem mem_sortedStrings {values : List String} {x : String} :
    x ∈ sortedStrings values ↔ x ∈ values :=
  (List.perm_insertionSort _ values).mem_iff

section Exceptions

variable {α β ε : Type}

theorem ok_bind (a : α) (f : α → Except ε β) : ((.ok a : Except ε α) >>= f) = f a := rfl

/-- A sequence of two steps succeeds when both do. -/
theorem bind_eq_ok_iff {x : Except ε α} {f : α → Except ε β} {b : β} :
    (x >>= f) = .ok b ↔ ∃ a, x = .ok a ∧ f a = .ok b := by
  cases x with
  | error e =>
      constructor
      · intro h
        cases h
      · rintro ⟨a, h, -⟩
        cases h
  | ok a =>
      constructor
      · intro h
        exact ⟨a, rfl, h⟩
      · rintro ⟨a', h, hb⟩
        cases h
        exact hb

theorem eq_ok_of_toOption {x : Except ε α} {a : α} (h : x.toOption = some a) : x = .ok a := by
  cases x with
  | error e => cases h
  | ok b =>
      cases h
      rfl

theorem pure_eq_ok_iff {a b : α} : (pure a : Except ε α) = .ok b ↔ a = b := by
  constructor
  · intro h
    cases h
    rfl
  · rintro rfl
    rfl

/-- A loop that may raise succeeds when each of its iterations does. -/
theorem mapM_eq_ok_iff {f : α → Except ε β} {values : List α} {results : List β} :
    values.mapM f = .ok results ↔ List.Forall₂ (fun a b => f a = .ok b) values results := by
  induction values generalizing results with
  | nil =>
      rw [List.mapM_nil, List.forall₂_nil_left_iff]
      exact ⟨fun h => by cases h; rfl, fun h => by rw [h]; rfl⟩
  | cons a rest ih =>
      rw [List.mapM_cons, List.forall₂_cons_left_iff]
      cases hfirst : f a with
      | error e =>
          constructor
          · intro h
            cases h
          · rintro ⟨b, results, hb, -, -⟩
            cases hb
      | ok b =>
          cases hrest : rest.mapM f with
          | error e =>
              constructor
              · intro h
                cases h
              · rintro ⟨b', results, -, hmore, -⟩
                rw [← ih, hrest] at hmore
                cases hmore
          | ok more =>
              constructor
              · intro h
                cases h
                exact ⟨b, more, rfl, ih.1 hrest, rfl⟩
              · rintro ⟨b', results, hb, hmore, rfl⟩
                cases hb
                rw [← ih, hrest] at hmore
                cases hmore
                rfl

theorem length_of_mapM_eq_ok {f : α → Except ε β} {values : List α} {results : List β}
    (h : values.mapM f = .ok results) : results.length = values.length :=
  (mapM_eq_ok_iff.1 h).length_eq.symm

theorem exists_ok_of_mapM_eq_ok {f : α → Except ε β} {values : List α} {results : List β}
    (h : values.mapM f = .ok results) {a : α} (ha : a ∈ values) : ∃ b, f a = .ok b := by
  have hall := mapM_eq_ok_iff.1 h
  induction hall with
  | nil => cases ha
  | @cons x y xs ys hxy hrest ih =>
      rcases List.mem_cons.1 ha with rfl | ha
      · exact ⟨y, hxy⟩
      · exact ih (mapM_eq_ok_iff.2 hrest) ha

theorem exists_of_mem_mapM {f : α → Except ε β} {values : List α} {results : List β}
    (h : values.mapM f = .ok results) {b : β} (hb : b ∈ results) : ∃ a ∈ values, f a = .ok b := by
  have hall := mapM_eq_ok_iff.1 h
  induction hall with
  | nil => cases hb
  | @cons x y xs ys hxy hrest ih =>
      rcases List.mem_cons.1 hb with rfl | hb
      · exact ⟨x, by simp, hxy⟩
      · obtain ⟨a, ha, hab⟩ := ih (mapM_eq_ok_iff.2 hrest) hb
        exact ⟨a, by simp [ha], hab⟩

theorem mem_of_mapM_eq_ok {f : α → Except ε β} {values : List α} {results : List β}
    (h : values.mapM f = .ok results) {a : α} {b : β} (ha : a ∈ values) (hab : f a = .ok b) :
    b ∈ results := by
  have hall := mapM_eq_ok_iff.1 h
  induction hall with
  | nil => cases ha
  | @cons x y xs ys hxy hrest ih =>
      rcases List.mem_cons.1 ha with rfl | ha
      · rw [hxy, Except.ok.injEq] at hab
        exact hab ▸ List.mem_cons_self
      · exact List.mem_cons_of_mem y (ih (mapM_eq_ok_iff.2 hrest) ha)

/-- The iteration for the value at a place gives the result at that place. -/
theorem getElem?_of_mapM_eq_ok {f : α → Except ε β} {values : List α} {results : List β}
    (h : values.mapM f = .ok results) {index : Nat} {a : α} (ha : values[index]? = some a) :
    ∃ b, results[index]? = some b ∧ f a = .ok b := by
  have hall := mapM_eq_ok_iff.1 h
  obtain ⟨hindex, rfl⟩ := List.getElem?_eq_some_iff.1 ha
  have hindex' : index < results.length := hall.length_eq ▸ hindex
  exact ⟨results[index], List.getElem?_eq_getElem hindex', hall.get hindex hindex'⟩

/-- A loop whose iterations all succeed succeeds. -/
theorem mapM_ok_of_forall {f : α → Except ε β} {values : List α}
    (h : ∀ a ∈ values, ∃ b, f a = .ok b) : ∃ results, values.mapM f = .ok results := by
  induction values with
  | nil => exact ⟨[], rfl⟩
  | cons a rest ih =>
      obtain ⟨b, hb⟩ := h a (by simp)
      obtain ⟨results, hresults⟩ := ih fun x hx => h x (by simp [hx])
      exact ⟨b :: results, mapM_eq_ok_iff.2 (.cons hb (mapM_eq_ok_iff.1 hresults))⟩

/-- A loop that never fails, with what holds of its results. -/
theorem exists_mapM_ok_and {f : α → Except ε β} {values : List α} {P : List β → Prop}
    (h : ∀ a ∈ values, ∃ b, f a = .ok b)
    (hresults : ∀ results, values.mapM f = .ok results → P results) :
    ∃ results, values.mapM f = .ok results ∧ P results := by
  obtain ⟨results, hok⟩ := mapM_ok_of_forall h
  exact ⟨results, hok, hresults results hok⟩

/-- Two loops over the same values, side by side. -/
theorem forall₂_of_mapM_eq_ok {γ : Type} {f : α → Except ε β} {f' : α → Except ε γ} {values : List α}
    {results : List β} {results' : List γ} (h : values.mapM f = .ok results)
    (h' : values.mapM f' = .ok results') :
    List.Forall₂ (fun b c => ∃ a ∈ values, f a = .ok b ∧ f' a = .ok c) results results' := by
  rw [mapM_eq_ok_iff] at h h'
  induction h generalizing results' with
  | nil =>
      cases h'
      exact .nil
  | @cons a b rest more hab _ ih =>
      cases h' with
      | @cons _ c _ more' hac hrest =>
          refine .cons ⟨a, by simp, hab, hac⟩ ((ih hrest).imp ?_)
          rintro x y ⟨a', ha', hx, hy⟩
          exact ⟨a', by simp [ha'], hx, hy⟩

/-- Two loops whose iterations do the same do the same. -/
theorem mapM_congr_of_mem {f f' : α → Except ε β} {values : List α}
    (h : ∀ a ∈ values, f a = f' a) : values.mapM f = values.mapM f' := by
  induction values with
  | nil => rfl
  | cons a rest ih =>
      rw [List.forall_mem_cons] at h
      rw [List.mapM_cons, List.mapM_cons, h.1, ih h.2]

/-- Two loops over the same values give the same where each of their iterations does. -/
theorem map_eq_map_iff_of_mapM {γ δ : Type} {f : α → Except ε β} {f' : α → Except ε γ}
    {values : List α} {results : List β} {results' : List γ} (h : values.mapM f = .ok results)
    (h' : values.mapM f' = .ok results') (g : β → δ) (g' : γ → δ) :
    results.map g = results'.map g' ↔
      ∀ a ∈ values, ∀ b c, f a = .ok b → f' a = .ok c → g b = g' c := by
  rw [mapM_eq_ok_iff] at h h'
  induction h generalizing results' with
  | nil =>
      cases h'
      simp
  | @cons a b rest more hab _ ih =>
      cases h' with
      | @cons _ c _ more' hac hrest =>
          rw [List.map_cons, List.map_cons, List.cons_eq_cons, ih hrest, List.forall_mem_cons]
          refine and_congr_left fun _ => ?_
          simp [hab, hac]

/-- What is read off the results of a loop, from the values. -/
theorem map_of_mapM_eq_ok {γ : Type} {f : α → Except ε β} {values : List α} {results : List β}
    (h : values.mapM f = .ok results) {g : β → γ} {g' : α → γ}
    (hsame : ∀ a ∈ values, ∀ b, f a = .ok b → g b = g' a) : results.map g = values.map g' := by
  rw [mapM_eq_ok_iff] at h
  induction h with
  | nil => rfl
  | @cons a b rest more hab _ ih =>
      rw [List.map_cons, List.map_cons, hsame a (by simp) b hab,
        ih fun x hx => hsame x (by simp [hx])]

theorem foldlM_concat {f : β → α → Except ε β} {values : List α} {x : α} {start : β} :
    (values ++ [x]).foldlM f start = values.foldlM f start >>= fun b => f b x := by
  rw [List.foldlM_append]
  simp

/-- What holds before a loop that may raise and is kept by each of its iterations holds when
the loop ends; it may speak of the values done so far. -/
theorem foldlM_ok_induction {f : β → α → Except ε β} {P : List α → β → Prop} {values : List α}
    {start result : β} (h : values.foldlM f start = .ok result) (hstart : P [] start)
    (hstep : ∀ done x b b', done ++ [x] <+: values → P done b → f b x = .ok b' →
      P (done ++ [x]) b') : P values result := by
  induction values using List.reverseRecOn generalizing result with
  | nil =>
      cases h
      exact hstart
  | append_singleton values x ih =>
      rw [foldlM_concat, bind_eq_ok_iff] at h
      obtain ⟨b, hb, hx⟩ := h
      have hdone : P values b := ih hb fun done y b b' hinit =>
        hstep done y b b' (hinit.trans (List.prefix_append values [x]))
      exact hstep values x b result (List.prefix_refl _) hdone hx

/-- A loop that may raise ends when each iteration ends, from what the ones before it led to. -/
theorem foldlM_ok_of_forall {f : β → α → Except ε β} {P : List α → β → Prop} {values : List α}
    {start : β} (hstart : P [] start)
    (hstep : ∀ done x b, done ++ [x] <+: values → P done b →
      ∃ b', f b x = .ok b' ∧ P (done ++ [x]) b') :
    ∃ result, values.foldlM f start = .ok result ∧ P values result := by
  induction values using List.reverseRecOn with
  | nil => exact ⟨start, rfl, hstart⟩
  | append_singleton values x ih =>
      obtain ⟨b, hb, hdone⟩ := ih fun done y b hinit =>
        hstep done y b (hinit.trans (List.prefix_append values [x]))
      obtain ⟨b', hb', hall⟩ := hstep values x b (List.prefix_refl _) hdone
      refine ⟨b', ?_, hall⟩
      rw [foldlM_concat, hb]
      exact hb'

/-- Where the values differ in something, the next one has not been met so far. -/
theorem not_mem_of_initial {κ : Type} {f : α → κ} {values done : List α} {x : α}
    (hinit : done ++ [x] <+: values) (hdistinct : (values.map f).Nodup) : f x ∉ done.map f := by
  have hdone := hdistinct.sublist (hinit.sublist.map f)
  rw [List.map_append, List.map_singleton, List.nodup_append] at hdone
  intro hmem
  exact hdone.2.2 (f x) hmem (f x) (List.mem_singleton_self _) rfl

theorem length_of_mapM_eq_some {f : α → Option β} {values : List α} {results : List β}
    (h : values.mapM f = some results) : results.length = values.length := by
  induction values generalizing results with
  | nil =>
      rw [List.mapM_nil] at h
      cases h
      rfl
  | cons a rest ih =>
      rw [List.mapM_cons, Option.bind_eq_bind, Option.bind_eq_some_iff] at h
      obtain ⟨b, -, h⟩ := h
      rw [Option.bind_eq_bind, Option.bind_eq_some_iff] at h
      obtain ⟨more, hmore, h⟩ := h
      cases h
      rw [List.length_cons, List.length_cons, ih hmore]

end Exceptions

end Lib
end ContestManagement
