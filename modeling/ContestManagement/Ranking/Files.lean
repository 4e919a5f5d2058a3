import ContestManagement.Ranking.Layers
import ContestManagement.Ranking.Restart

/-!
# The files of the stores

Each store has a directory with a file for each of its entities: `create`, `update` and `merge_list`
write it and `delete` removes it, in each case after the callbacks.  `load_from_disk` reads the
directory, in any order, and stops at the first file it cannot use.

A file operation is done or not done here: none fails or is left half-way.
-/

namespace ContestManagement
namespace Ranking

open Lib

/-! ## `Entity.get` -/

def Contest.get (c : Contest) : PyValue :=
  .dict [("name", .str c.name), ("begin", .int c.begin), ("end", .int c.finish),
    ("score_precision", .int c.scorePrecision)]

def Task.get (t : Task) : PyValue :=
  .dict [("name", .str t.name), ("short_name", .str t.shortName), ("contest", .str t.contest),
    ("max_score", .float t.maxScore), ("score_precision", .int t.scorePrecision),
    ("extra_headers", .list (t.extraHeaders.map .str)), ("order", .int t.order),
    ("score_mode", .str t.scoreMode)]

def Team.get (t : Team) : PyValue := .dict [("name", .str t.name)]

def User.get (u : User) : PyValue :=
  .dict [("f_name", .str u.firstName), ("l_name", .str u.lastName),
    ("team", match u.team with | none => .none | some team => .str team)]

def Submission.get (s : Submission) : PyValue :=
  .dict [("user", .str s.user), ("task", .str s.task), ("time", .int s.time)]

/-- The fields that are `None` are left out. -/
def Subchange.get (c : Subchange) : PyValue :=
  .dict ([("submission", .str c.submission), ("time", .int c.time)] ++
    (c.score.toList.map fun q => ("score", .float q)) ++
    (c.token.toList.map fun b => ("token", .bool b)) ++
    c.extra.toList.map fun texts => ("extra", .list (texts.map .str)))

namespace Data

/-- `Entity.get` of each kind. -/
def get : (k : Kind) → Data k → PyValue
  | .contest => Contest.get
  | .task => Task.get
  | .team => Team.get
  | .user => User.get
  | .submission => Submission.get
  | .subchange => Subchange.get

end Data

theorem strings?_map_str (texts : List String) :
    PyValue.strings? (.list (texts.map .str)) = some texts := by
  show (texts.map PyValue.str).mapM PyValue.str? = some texts
  induction texts with
  | nil => rfl
  | cons text rest ih =>
      rw [List.map_cons, List.mapM_cons, ih]
      rfl

theorem require_eq_ok {β : Type} {value : Option β} {message : String} {b : β} :
    require value message = .ok b ↔ value = some b := by
  cases value with
  | none =>
      constructor
      · rintro ⟨⟩
      · rintro ⟨⟩
  | some a =>
      constructor
      · rintro ⟨⟩
        rfl
      · rintro ⟨⟩
        rfl

theorem nonneg_of_scorePrecisionOf {data : List (String × PyValue)} {precision : ℤ}
    (h : scorePrecisionOf data = .ok precision) : 0 ≤ precision := by
  unfold scorePrecisionOf at h
  obtain ⟨p, -, hp⟩ := bind_eq_ok_iff.1 h
  rw [require_eq_ok] at hp
  split at hp
  · obtain rfl := Option.some.inj hp
    assumption
  · cases hp

theorem Contest.set_get {value : PyValue} {c : Contest} (h : Contest.set value = .ok c) :
    Contest.set c.get = .ok c := by
  unfold Contest.set at h
  obtain ⟨data, -, h⟩ := bind_eq_ok_iff.1 h
  obtain ⟨name, -, h⟩ := bind_eq_ok_iff.1 h
  obtain ⟨begin, -, h⟩ := bind_eq_ok_iff.1 h
  obtain ⟨finish, -, h⟩ := bind_eq_ok_iff.1 h
  obtain ⟨_, hle, h⟩ := bind_eq_ok_iff.1 h
  obtain ⟨precision, hprecision, h⟩ := bind_eq_ok_iff.1 h
  obtain rfl := Except.ok.inj h
  have hnonneg := nonneg_of_scorePrecisionOf hprecision
  rw [require_eq_ok] at hle
  split at hle
  case isFalse => cases hle
  case isTrue hbegin =>
    show (require (if begin ≤ finish then some () else none) _ >>= fun _ =>
      require (if 0 ≤ precision then some precision else none) _ >>= fun precision =>
        Except.ok (⟨name, begin, finish, precision⟩ : Contest)) = _
    rw [if_pos hbegin, if_pos hnonneg]
    rfl

theorem Task.set_get {value : PyValue} {t : Task} (h : Task.set value = .ok t) :
    Task.set t.get = .ok t := by
  unfold Task.set at h
  obtain ⟨data, -, h⟩ := bind_eq_ok_iff.1 h
  obtain ⟨name, -, h⟩ := bind_eq_ok_iff.1 h
  obtain ⟨shortName, -, h⟩ := bind_eq_ok_iff.1 h
  obtain ⟨contest, -, h⟩ := bind_eq_ok_iff.1 h
  obtain ⟨maxScore, -, h⟩ := bind_eq_ok_iff.1 h
  obtain ⟨precision, hprecision, h⟩ := bind_eq_ok_iff.1 h
  obtain ⟨_, -, h⟩ := bind_eq_ok_iff.1 h
  obtain ⟨scoreMode, -, h⟩ := bind_eq_ok_iff.1 h
  obtain ⟨headers, -, h⟩ := bind_eq_ok_iff.1 h
  obtain ⟨order, -, h⟩ := bind_eq_ok_iff.1 h
  obtain rfl := Except.ok.inj h
  have hnonneg := nonneg_of_scorePrecisionOf hprecision
  show (require (if 0 ≤ precision then some precision else none) _ >>= fun precision =>
    require (PyValue.strings? (.list (headers.map .str))) _ >>= fun headers =>
      Except.ok (⟨name, shortName, contest, maxScore, precision, headers, order, scoreMode⟩ : Task)) = _
  rw [if_pos hnonneg, strings?_map_str]
  rfl

theorem User.set_get (u : User) : User.set u.get = .ok u := by
  obtain ⟨firstName, lastName, team⟩ := u
  cases team with
  | none => rfl
  | some team => rfl

theorem Subchange.set_get (c : Subchange) : Subchange.set c.get = .ok c := by
  obtain ⟨submission, time, score, token, extra⟩ := c
  -- The list of the details is the one that is read element by element.
  have hextra : ∀ texts, optional [("extra", .list (texts.map PyValue.str))] "extra"
      PyValue.strings? "isn't a list of strings" = .ok (some texts) := by
    intro texts
    show some <$> require (PyValue.strings? (.list (texts.map .str))) _ = _
    rw [strings?_map_str]
    rfl
  cases extra with
  | none =>
      cases score with
      | none =>
          cases token with
          | none => rfl
          | some b => rfl
      | some q =>
          cases token with
          | none => rfl
          | some b => rfl
  | some texts =>
      cases score with
      | none =>
          cases token with
          | none => exact congrArg (fun x => x >>= fun extra => Except.ok
              (⟨submission, time, none, none, extra⟩ : Subchange)) (hextra texts)
          | some b => exact congrArg (fun x => x >>= fun extra => Except.ok
              (⟨submission, time, none, some b, extra⟩ : Subchange)) (hextra texts)
      | some q =>
          cases token with
          | none => exact congrArg (fun x => x >>= fun extra => Except.ok
              (⟨submission, time, some q, none, extra⟩ : Subchange)) (hextra texts)
          | some b => exact congrArg (fun x => x >>= fun extra => Except.ok
              (⟨submission, time, some q, some b, extra⟩ : Subchange)) (hextra texts)

/-- An entity that was set from some data is set from its own. -/
theorem Data.set_get {k : Kind} {value : PyValue} {e : Data k} (h : Data.set k value = .ok e) :
    Data.set k (Data.get k e) = .ok e := by
  cases k with
  | contest => exact Contest.set_get h
  | task => exact Task.set_get h
  | team => rfl
  | user => exact User.set_get e
  | submission => rfl
  | subchange => exact Subchange.set_get e

/-! ## A directory -/

/-- What is in a file: nothing if it is no JSON. -/
abbrev File : Type := Option PyValue

def fileName (key : String) : String := key ++ ".json"

/-- `name[:-5]`, if `name[-5:]` is `.json`. -/
def keyOf (name : String) : Option String :=
  let chars := name.toList
  if chars.drop (chars.length - 5) = ".json".toList then
    some (String.ofList (chars.take (chars.length - 5)))
  else none

theorem keyOf_fileName (key : String) : keyOf (fileName key) = some key := by
  have hchars : (fileName key).toList = key.toList ++ ".json".toList := String.toList_append
  have hlength : (key.toList ++ ".json".toList).length - 5 = key.toList.length := by
    rw [List.length_append]
    exact Nat.add_sub_cancel _ 5
  unfold keyOf
  dsimp only
  rw [hchars, hlength, List.drop_left, List.take_left, if_pos rfl, String.ofList_toList]

theorem fileName_inj {key other : String} (h : fileName key = fileName other) : key = other := by
  have hkey := keyOf_fileName key
  rw [h, keyOf_fileName] at hkey
  exact (Option.some.inj hkey).symm

/-- `load_from_disk`, with the files that are listed. -/
def loadFromDisk (k : Kind) : List (String × File) → Dict String (Data k) → Dict String (Data k)
  | [], store => store
  | (name, file) :: rest, store =>
      match keyOf name with
      | none => loadFromDisk k rest store
      | some key =>
          if validKey key then
            match file with
            | none => store
            | some value =>
                match Data.set k value with
                | .ok e => loadFromDisk k rest (store.set key e)
                | .error _ => store
          else loadFromDisk k rest store

/-- A directory holds a store: it has the file of each entity, and no other. -/
def HoldsStore (k : Kind) (directory : Dict String File) (store : Dict String (Data k)) : Prop :=
  ∀ name file, directory.get? name = some file ↔
    ∃ key e, store.get? key = some e ∧ name = fileName key ∧ file = some (Data.get k e)

namespace HoldsStore

variable {k : Kind} {directory : Dict String File} {store store' : Dict String (Data k)} {key : String}

theorem empty : HoldsStore k Dict.empty Dict.empty := by
  intro name file
  rw [Dict.get?_empty]
  constructor
  · rintro ⟨⟩
  · rintro ⟨key, e, he, -⟩
    rw [Dict.get?_empty] at he
    cases he

theorem set (h : HoldsStore k directory store) (key : String) (e : Data k) :
    HoldsStore k (directory.set (fileName key) (some (Data.get k e))) (store.set key e) := by
  intro name file
  rw [Dict.get?_set]
  constructor
  · intro hfile
    split at hfile
    case isTrue hname =>
      refine ⟨key, e, ?_, hname, (Option.some.inj hfile).symm⟩
      rw [Dict.get?_set, if_pos rfl]
    case isFalse hname =>
      obtain ⟨other, f, hf, hother, hcontent⟩ := (h name file).1 hfile
      refine ⟨other, f, ?_, hother, hcontent⟩
      rw [Dict.get?_set, if_neg, hf]
      rintro rfl
      exact hname hother
  · rintro ⟨other, f, hf, rfl, rfl⟩
    rw [Dict.get?_set] at hf
    split at hf
    case isTrue hkey =>
      obtain rfl := Option.some.inj hf
      rw [if_pos (congrArg fileName hkey)]
    case isFalse hkey =>
      rw [if_neg fun hname => hkey (fileName_inj hname)]
      exact (h _ _).2 ⟨other, f, hf, rfl, rfl⟩

theorem erase (h : HoldsStore k directory store) (key : String) :
    HoldsStore k (directory.erase (fileName key)) (store.erase key) := by
  intro name file
  rw [Dict.get?_erase]
  constructor
  · intro hfile
    split at hfile
    case isTrue => cases hfile
    case isFalse hname =>
      obtain ⟨other, f, hf, hother, hcontent⟩ := (h name file).1 hfile
      refine ⟨other, f, ?_, hother, hcontent⟩
      rw [Dict.get?_erase, if_neg, hf]
      rintro rfl
      exact hname hother
  · rintro ⟨other, f, hf, rfl, rfl⟩
    rw [Dict.get?_erase] at hf
    split at hf
    case isTrue => cases hf
    case isFalse hkey =>
      rw [if_neg fun hname => hkey (fileName_inj hname)]
      exact (h _ _).2 ⟨other, f, hf, rfl, rfl⟩

/-- Loading some files of a store, in a dictionary with others of its entities. -/
theorem load_of_files (hkeys : ∀ key e, store.get? key = some e → validKey key = true)
    (hset : ∀ key e, store.get? key = some e → Data.set k (Data.get k e) = .ok e)
    (files : List (String × File)) (hfiles : ∀ item ∈ files, ∃ key e, store.get? key = some e ∧
      item = (fileName key, some (Data.get k e)))
    (loaded : Dict String (Data k)) (hloaded : ∀ key e, loaded.get? key = some e →
      store.get? key = some e) :
    (∀ key e, (loadFromDisk k files loaded).get? key = some e → store.get? key = some e) ∧
    (∀ key e, loaded.get? key = some e → (loadFromDisk k files loaded).get? key = some e) ∧
    ∀ key e, store.get? key = some e → (fileName key, some (Data.get k e)) ∈ files →
      (loadFromDisk k files loaded).get? key = some e := by
  induction files generalizing loaded with
  | nil => exact ⟨hloaded, fun _ _ he => he, fun _ _ _ hmem => (nomatch hmem)⟩
  | cons item rest ih =>
      obtain ⟨key, e, he, rfl⟩ := hfiles item List.mem_cons_self
      have hload : loadFromDisk k ((fileName key, some (Data.get k e)) :: rest) loaded =
          loadFromDisk k rest (loaded.set key e) := by
        rw [loadFromDisk, keyOf_fileName]
        dsimp only
        rw [if_pos (hkeys key e he), hset key e he]
      have hnext : ∀ other f, (loaded.set key e).get? other = some f →
          store.get? other = some f := by
        intro other f hf
        rw [Dict.get?_set] at hf
        split at hf
        case isTrue hother =>
          rw [hother, ← hf]
          exact he
        case isFalse => exact hloaded other f hf
      obtain ⟨hback, hkept, hall⟩ :=
        ih (fun item hitem => hfiles item (List.mem_cons_of_mem _ hitem)) (loaded.set key e) hnext
      rw [hload]
      have hself := hkept key e (by rw [Dict.get?_set, if_pos rfl])
      refine ⟨hback, ?_, ?_⟩
      · intro other f hf
        by_cases hother : other = key
        · have hsame := hloaded other f hf
          rw [hother, he, Option.some.injEq] at hsame
          rw [hother, ← hsame]
          exact hself
        · refine hkept other f ?_
          rw [Dict.get?_set, if_neg hother]
          exact hf
      · intro other f hf hmem
        rcases List.mem_cons.1 hmem with hfirst | hrest
        · obtain rfl := fileName_inj (Prod.mk.inj hfirst).1
          rw [he, Option.some.injEq] at hf
          rw [← hf]
          exact hself
        · exact hall other f hf hrest

/-- Loading the files of a store gives it back, in whatever order they are listed. -/
theorem load (h : HoldsStore k directory store)
    (hkeys : ∀ key e, store.get? key = some e → validKey key = true)
    (hset : ∀ key e, store.get? key = some e → Data.set k (Data.get k e) = .ok e)
    {listing : List (String × File)} (hlisting : listing.Perm directory.items) (key : String) :
    (loadFromDisk k listing Dict.empty).get? key = store.get? key := by
  have hmem : ∀ name file, (name, file) ∈ listing ↔ directory.get? name = some file := by
    intro name file
    rw [hlisting.mem_iff, Dict.mem_items_iff]
  have hfiles : ∀ item ∈ listing, ∃ key e, store.get? key = some e ∧
      item = (fileName key, some (Data.get k e)) := by
    rintro ⟨name, file⟩ hitem
    obtain ⟨key, e, he, rfl, rfl⟩ := (h name file).1 ((hmem name file).1 hitem)
    exact ⟨key, e, he, rfl⟩
  obtain ⟨hback, -, hall⟩ := load_of_files hkeys hset listing hfiles Dict.empty
    fun key e he => by rw [Dict.get?_empty] at he; cases he
  ext e
  constructor
  · exact hback key e
  · intro he
    exact hall key e he ((hmem _ _).2 ((h _ _).2 ⟨key, e, he, rfl, rfl⟩))

end HoldsStore

/-! ## The operations with their files -/

inductive FileOp
  | write (k : Kind) (key : String) (value : PyValue)
  | remove (k : Kind) (key : String)

/-- The directories of the six stores. -/
abbrev Disk : Type := Kind → Dict String File

namespace Disk

def empty : Disk := fun _ => Dict.empty

def apply (disk : Disk) : FileOp → Disk
  | .write k key value =>
      Function.update disk k ((disk k).set (fileName key) (some value))
  | .remove k key => Function.update disk k ((disk k).erase (fileName key))

/-- The directories after some file operations. -/
def after (ops : List FileOp) : Disk := ops.foldl apply empty

theorem after_concat (ops : List FileOp) (op : FileOp) :
    after (ops ++ [op]) = (after ops).apply op := by
  rw [after, List.foldl_append]
  rfl

end Disk

/-- The stores that a restart loads from the directories, as they are listed. -/
def loadStores (listing : Kind → List (String × File)) : Stores :=
  fun k => loadFromDisk k (listing k) Dict.empty

/-- A ranking with the file operations that were done. -/
structure Filed where
  state : State
  files : List FileOp

namespace Filed

/-- The file operation that follows the callbacks. -/
def thenFile (w : Filed) (op : FileOp) (result : Except Raised State) : Except Raised Filed :=
  result.map fun state => ⟨state, w.files ++ [op]⟩

def insert (w : Filed) (k : Kind) (key : String) (e : Data k) : Except Raised Filed :=
  w.thenFile (.write k key (Data.get k e)) (w.state.insert k key e)

def without (w : Filed) (k : Kind) (key : String) : Filed :=
  { w with state := w.state.without k key }

/-- The end of a deletion, when its dependents and their files are gone. -/
def onDelete (w : Filed) (k : Kind) (key : String) (old : Data k) : Except Raised Filed :=
  w.thenFile (.remove k key) (w.state.onDelete k key old)

theorem state_thenFile (w : Filed) (op : FileOp) (result : Except Raised State) :
    (w.thenFile op result).map state = result := by
  cases result with
  | error raised => rfl
  | ok state => rfl

end Filed

/-- The stores with their files. -/
@[reducible] def filedLayer : Layer Filed where
  state := Filed.state
  insert := Filed.insert
  without := Filed.without
  onDelete := Filed.onDelete
  state_insert w _ _ _ := w.state_thenFile _ _
  state_without _ _ _ := rfl
  state_onDelete w _ _ _ := w.state_thenFile _ _

/-- A ranking with its files, from empty directories. -/
def filedMachine : Machine Filed Op where
  init w := w = ⟨State.empty, []⟩
  step := filedLayer.step

end Ranking
end ContestManagement
