import ContestManagement.Lib.Machine
import ContestManagement.Service.FlushingDict

/-!
# What becomes of the values of a flushing dictionary

Values are added under keys, flushes take all that is pending and hand it to the callback, and some
keys are discarded, by any threads in any order.  Every value added has a number here, by which
values are told apart, and it is recorded what becomes of each.

A flush is three steps: it takes what is pending, it calls the callback with it, and it drops the
batch when the callback has returned, raised or been cancelled.
-/

namespace ContestManagement
namespace Service

open Lib

/-- `FlushingDict` with the times of its insertions. -/
structure TimedFlushingDict (K V : Type) where
  dict : FlushingDict K V
  lastInsert : ℤ
  oldestInsert : Option ℤ

namespace TimedFlushingDict

variable {K V : Type} [DecidableEq K] (t : TimedFlushingDict K V)

/-- `add`, at the time that the clock shows. -/
def add (now : ℤ) (key : K) (value : V) : TimedFlushingDict K V where
  dict := t.dict.add key value
  lastInsert := now
  oldestInsert := if t.dict.d.length = 0 then some now else t.oldestInsert

omit [DecidableEq K] in
/-- The first half of `flush`. -/
def takeBatch : TimedFlushingDict K V :=
  { t with dict := t.dict.takeBatch.2, oldestInsert := none }

omit [DecidableEq K] in
/-- The second half of `flush`. -/
def dropBatch (batch : ℕ) : TimedFlushingDict K V :=
  { t with dict := t.dict.dropBatch batch }

omit [DecidableEq K] in
def discard (predicate : K → Bool) : TimedFlushingDict K V :=
  let dict := (t.dict.discard predicate).2
  { t with
    dict := dict
    oldestInsert := if dict.d.length = 0 then none else t.oldestInsert }

end TimedFlushingDict

/-- A value that was added, with the number of its add. -/
abbrev Numbered (K V : Type) : Type := K × ℕ × V

/-- A call of `add`. -/
structure Added (K V : Type) where
  key : K
  value : V
  time : ℤ

/-- A flush between taking its batch and dropping it, with the items for the callback. -/
structure Flight (K V : Type) where
  batch : ℕ
  items : List (Numbered K V)
  handed : Bool

/-- The dictionary, the clock and the flushes in progress, and the record of what has become of the
values: those handed to the callback, those overwritten or discarded while they were pending, and
those discarded out of the batch of a flush. -/
structure FlushState (K V : Type) where
  cache : TimedFlushingDict K (ℕ × V)
  clock : ℤ
  flights : List (Flight K V)
  adds : List (Added K V)
  handed : List (Numbered K V)
  overwritten : List ℕ
  discarded : List ℕ
  withdrawn : List ℕ

inductive FlushLabel (K V : Type)
  | add (key : K) (value : V) (now : ℤ)
  | take
  | callBack (batch : ℕ)
  | finish (batch : ℕ) (raised : Bool)
  | discard (predicate : K → Bool)

/-- The numbers of some values. -/
def numbers {K V : Type} (items : List (Numbered K V)) : List ℕ :=
  items.map fun item => item.2.1

namespace FlushState

variable {K V : Type} [DecidableEq K]

/-- The values that wait for a flush. -/
def pending (s : FlushState K V) : List (Numbered K V) := s.cache.dict.d

/-- The values that a flush has taken and not yet handed to the callback. -/
def taken (flights : List (Flight K V)) : List (Numbered K V) :=
  flights.flatMap fun flight => if flight.handed then [] else flight.items

/-- The flushes once one of them has called the callback. -/
def calledBack (flights : List (Flight K V)) (batch : ℕ) : List (Flight K V) :=
  flights.map fun other => if other.batch = batch then { other with handed := true } else other

/-- The pending value that an add of the key overwrites. -/
def replaced (key : K) (items : List (Numbered K V)) : List (Numbered K V) :=
  (items.find? fun item => item.1 = key).toList

def init (s : FlushState K V) : Prop :=
  s.cache.dict = FlushingDict.empty K (ℕ × V) ∧ s.cache.oldestInsert = none ∧ s.flights = [] ∧
    s.adds = [] ∧ s.handed = [] ∧ s.overwritten = [] ∧ s.discarded = [] ∧ s.withdrawn = []

def add (s : FlushState K V) (key : K) (value : V) (now : ℤ) : FlushState K V :=
  { s with
    cache := s.cache.add now key (s.adds.length, value)
    clock := now
    adds := s.adds ++ [⟨key, value, now⟩]
    overwritten := s.overwritten ++ numbers (replaced key s.pending) }

def take (s : FlushState K V) : FlushState K V :=
  { s with
    cache := s.cache.takeBatch
    flights := s.flights ++ [⟨s.cache.dict.nextBatch, s.pending, false⟩] }

def callBack (s : FlushState K V) (flight : Flight K V) : FlushState K V :=
  { s with
    flights := calledBack s.flights flight.batch
    handed := s.handed ++ flight.items }

def finish (s : FlushState K V) (batch : ℕ) : FlushState K V :=
  { s with
    cache := s.cache.dropBatch batch
    flights := s.flights.filter fun flight => flight.batch ≠ batch }

def discard (s : FlushState K V) (predicate : K → Bool) : FlushState K V :=
  { s with
    cache := s.cache.discard predicate
    discarded := s.discarded ++ numbers (s.pending.filter fun item => predicate item.1)
    withdrawn := s.withdrawn ++
      numbers ((s.cache.dict.flushing.flatMap Prod.snd).filter fun item => predicate item.1) }

/-- A step; the clock never goes back. -/
def step (s : FlushState K V) : FlushLabel K V → Option (FlushState K V)
  | .add key value now => if s.clock ≤ now then some (s.add key value now) else none
  | .take => some s.take
  | .callBack batch =>
      match s.flights.find? fun flight => flight.batch = batch ∧ flight.handed = false with
      | some flight => some (s.callBack flight)
      | none => none
  | .finish batch _ =>
      -- an exception is logged, and the batch is dropped as well
      match s.flights.find? fun flight => flight.batch = batch ∧ flight.handed = true with
      | some flight => some (s.finish flight.batch)
      | none => none
  | .discard predicate => some (s.discard predicate)

end FlushState

def flushMachine (K V : Type) [DecidableEq K] : Machine (FlushState K V) (FlushLabel K V) where
  init := FlushState.init
  step := FlushState.step

/-! ## What holds in every state -/

variable {K V : Type} {s : FlushState K V}

/-- A numbered value is the one that the add with its number added. -/
def Numbers (adds : List (Added K V)) (item : Numbered K V) : Prop :=
  ∃ time, adds[item.2.1]? = some ⟨item.1, item.2.2, time⟩

/-- The places where a value may be, or have been left. -/
def FlushState.accounts (s : FlushState K V) : List ℕ :=
  numbers s.pending ++ numbers (FlushState.taken s.flights) ++ numbers s.handed ++ s.overwritten ++
    s.discarded

structure FlushAccounted (s : FlushState K V) : Prop where
  /-- Each add is in one place, once. -/
  accounts : s.accounts.Perm (List.range s.adds.length)
  pendingNumbers : ∀ item ∈ s.pending, Numbers s.adds item
  flightNumbers : ∀ flight ∈ s.flights, ∀ item ∈ flight.items, Numbers s.adds item
  handedNumbers : ∀ item ∈ s.handed, Numbers s.adds item
  /-- A value that was overwritten has a later one under its key. -/
  overwritten : ∀ n ∈ s.overwritten, ∃ m added later, n < m ∧ s.adds[n]? = some added ∧
    s.adds[m]? = some later ∧ later.key = added.key
  /-- The batch of a flush has its items, but for those discarded. -/
  batches : s.cache.dict.flushing =
    s.flights.map fun flight =>
      (flight.batch, flight.items.filter fun item => item.2.1 ∉ s.withdrawn)
  batchesFresh : ∀ flight ∈ s.flights, flight.batch < s.cache.dict.nextBatch
  batchesDistinct : (s.flights.map Flight.batch).Nodup
  withdrawnFlown : ∀ n ∈ s.withdrawn,
    n ∈ numbers (FlushState.taken s.flights) ++ numbers s.handed
  handedFlights : ∀ flight ∈ s.flights, flight.handed = true → ∀ item ∈ flight.items,
    item.2.1 ∈ numbers s.handed
  oldest_none : s.cache.oldestInsert = none ↔ s.pending = []
  oldest_le : ∀ oldest ∈ s.cache.oldestInsert, oldest ≤ s.clock ∧
    ∀ item ∈ s.pending, ∀ added, s.adds[item.2.1]? = some added → oldest ≤ added.time

theorem Numbers.append {adds : List (Added K V)} {item : Numbered K V} (h : Numbers adds item)
    (added : Added K V) : Numbers (adds ++ [added]) item := by
  obtain ⟨time, htime⟩ := h
  obtain ⟨hlt, -⟩ := List.getElem?_eq_some_iff.1 htime
  exact ⟨time, by rw [List.getElem?_append_left hlt, htime]⟩

theorem Numbers.lt {adds : List (Added K V)} {item : Numbered K V} (h : Numbers adds item) :
    item.2.1 < adds.length := by
  obtain ⟨time, htime⟩ := h
  exact (List.getElem?_eq_some_iff.1 htime).1

/-- Values with one number have one key. -/
theorem Numbers.key_eq {adds : List (Added K V)} {item item' : Numbered K V}
    (h : Numbers adds item) (h' : Numbers adds item') (heq : item.2.1 = item'.2.1) :
    item.1 = item'.1 := by
  obtain ⟨time, htime⟩ := h
  obtain ⟨time', htime'⟩ := h'
  rw [heq, htime', Option.some.injEq, Added.mk.injEq] at htime
  exact htime.1.symm

/-- The number of a value tells the value. -/
theorem Numbers.eq {adds : List (Added K V)} {item : Numbered K V} (h : Numbers adds item)
    {added : Added K V} (hadded : adds[item.2.1]? = some added) :
    item = (added.key, item.2.1, added.value) := by
  obtain ⟨time, htime⟩ := h
  rw [htime, Option.some.injEq] at hadded
  rw [← hadded]

theorem numbers_append (l l' : List (Numbered K V)) : numbers (l ++ l') = numbers l ++ numbers l' :=
  List.map_append ..

theorem mem_numbers {items : List (Numbered K V)} {n : ℕ} :
    n ∈ numbers items ↔ ∃ item ∈ items, item.2.1 = n :=
  List.mem_map

namespace FlushState

theorem mem_taken {flights : List (Flight K V)} {item : Numbered K V} :
    item ∈ taken flights ↔
      ∃ flight ∈ flights, flight.handed = false ∧ item ∈ flight.items := by
  unfold taken
  rw [List.mem_flatMap]
  refine exists_congr fun flight => and_congr_right fun _ => ?_
  cases flight.handed <;> simp

theorem taken_cons (flight : Flight K V) (flights : List (Flight K V)) :
    taken (flight :: flights) = (if flight.handed then [] else flight.items) ++ taken flights :=
  List.flatMap_cons

/-- Flushes that have called the callback hold nothing back. -/
theorem taken_filter {flights : List (Flight K V)} {p : Flight K V → Bool}
    (h : ∀ flight ∈ flights, p flight = false → flight.handed = true) :
    taken (flights.filter p) = taken flights := by
  induction flights with
  | nil => rfl
  | cons flight rest ih =>
      have hrest := ih fun other hother => h other (List.mem_cons_of_mem _ hother)
      rw [taken_cons, ← hrest]
      cases hp : p flight with
      | true => rw [List.filter_cons_of_pos hp, taken_cons]
      | false =>
          rw [List.filter_cons_of_neg (by simp [hp]), h flight List.mem_cons_self hp]
          rfl

theorem calledBack_of_notMem {flights : List (Flight K V)} {batch : ℕ}
    (h : batch ∉ flights.map Flight.batch) : calledBack flights batch = flights := by
  have hself : ∀ other ∈ flights,
      (if other.batch = batch then { other with handed := true } else other) = other := by
    intro other hother
    exact if_neg fun heq => h (List.mem_map.2 ⟨other, hother, heq⟩)
  exact (List.map_congr_left hself).trans (List.map_id' flights)

theorem mem_calledBack {flights : List (Flight K V)} {batch : ℕ} {flight : Flight K V}
    (h : flight ∈ calledBack flights batch) :
    ∃ other ∈ flights, flight.batch = other.batch ∧ flight.items = other.items ∧
      (flight.handed = true → other.handed = true ∨ other.batch = batch) := by
  obtain ⟨other, hother, rfl⟩ := List.mem_map.1 h
  refine ⟨other, hother, ?_⟩
  by_cases heq : other.batch = batch
  · simp [heq]
  · simp [heq]

theorem map_calledBack {γ : Type} (flights : List (Flight K V)) (batch : ℕ)
    (f : ℕ → List (Numbered K V) → γ) :
    ((calledBack flights batch).map fun flight => f flight.batch flight.items) =
      flights.map fun flight => f flight.batch flight.items := by
  unfold calledBack
  rw [List.map_map]
  refine List.map_congr_left fun other _ => ?_
  by_cases heq : other.batch = batch
  · simp [heq]
  · simp [heq]

/-- The items of the flush that calls the callback are held back no longer. -/
theorem taken_perm_calledBack {flights : List (Flight K V)} {flight : Flight K V}
    (hmem : flight ∈ flights) (hdistinct : (flights.map Flight.batch).Nodup)
    (hhanded : flight.handed = false) :
    (taken flights).Perm (flight.items ++ taken (calledBack flights flight.batch)) := by
  induction flights with
  | nil => cases hmem
  | cons other rest ih =>
      rw [List.map_cons, List.nodup_cons] at hdistinct
      have hcons : calledBack (other :: rest) flight.batch =
          (if other.batch = flight.batch then { other with handed := true } else other) ::
            calledBack rest flight.batch := rfl
      rw [hcons, taken_cons, taken_cons]
      by_cases heq : other.batch = flight.batch
      · -- It is the flush at the front, since the batches are distinct.
        have hfront : flight = other := by
          rcases List.mem_cons.1 hmem with hfront | hrest
          · exact hfront
          · exact absurd (List.mem_map.2 ⟨flight, hrest, heq.symm⟩) hdistinct.1
        subst hfront
        rw [if_pos rfl, calledBack_of_notMem hdistinct.1, hhanded]
        exact List.Perm.refl _
      · have hrest : flight ∈ rest := by
          rcases List.mem_cons.1 hmem with hfront | hrest
          · exact absurd (congrArg Flight.batch hfront.symm) heq
          · exact hrest
        rw [if_neg heq]
        refine ((ih hrest hdistinct.2).append_left _).trans ?_
        rw [← List.append_assoc, ← List.append_assoc]
        exact (List.perm_append_comm).append_right _

section

variable (s)

theorem flights_take :
    s.take.flights = s.flights ++ [⟨s.cache.dict.nextBatch, s.pending, false⟩] := rfl

theorem taken_take : taken s.take.flights = taken s.flights ++ s.pending := by
  rw [flights_take]
  unfold taken
  rw [List.flatMap_append, List.flatMap_singleton]
  rfl

theorem accounts_take :
    s.take.accounts = numbers (taken s.flights ++ s.pending) ++ numbers s.handed ++
      s.overwritten ++ s.discarded := by
  rw [← taken_take]
  rfl

theorem flights_callBack (flight : Flight K V) :
    (s.callBack flight).flights = calledBack s.flights flight.batch := rfl

theorem handed_callBack (flight : Flight K V) :
    (s.callBack flight).handed = s.handed ++ flight.items := rfl

theorem accounts_callBack (flight : Flight K V) :
    (s.callBack flight).accounts =
      numbers s.pending ++ numbers (taken (calledBack s.flights flight.batch)) ++
        numbers (s.handed ++ flight.items) ++ s.overwritten ++ s.discarded := rfl

theorem withdrawn_discard (predicate : K → Bool) :
    (s.discard predicate).withdrawn = s.withdrawn ++
      numbers ((s.cache.dict.flushing.flatMap Prod.snd).filter fun item => predicate item.1) := rfl

theorem accounts_discard (predicate : K → Bool) :
    (s.discard predicate).accounts =
      numbers (s.pending.filter fun item => !predicate item.1) ++ numbers (taken s.flights) ++
        numbers s.handed ++ s.overwritten ++
        (s.discarded ++ numbers (s.pending.filter fun item => predicate item.1)) := rfl

end

variable [DecidableEq K]

/-- Setting a key puts in the new value and takes out the one it replaces. -/
theorem setItem_perm (key : K) (value : ℕ × V) (items : List (Numbered K V)) :
    (numbers (FlushingDict.setItem key value items) ++ numbers (replaced key items)).Perm
      (numbers items ++ [value.1]) := by
  induction items with
  | nil => exact List.Perm.refl _
  | cons item rest ih =>
      obtain ⟨k, n, v⟩ := item
      unfold FlushingDict.setItem replaced
      by_cases heq : k = key
      · rw [if_pos heq, List.find?_cons_of_pos (by simpa using heq)]
        show ((value.1 :: numbers rest) ++ [n]).Perm ((n :: numbers rest) ++ [value.1])
        calc List.Perm (value.1 :: (numbers rest ++ [n])) (value.1 :: n :: numbers rest) :=
              (List.perm_append_singleton n _).cons _
          List.Perm _ (n :: value.1 :: numbers rest) := List.Perm.swap ..
          List.Perm _ (n :: (numbers rest ++ [value.1])) :=
              (List.perm_append_singleton value.1 _).symm.cons _
      · rw [if_neg heq, List.find?_cons_of_neg (by simpa using heq)]
        exact ih.cons n

theorem mem_setItem {key : K} {value : ℕ × V} {items : List (Numbered K V)}
    {item : Numbered K V} (h : item ∈ FlushingDict.setItem key value items) :
    item = (key, value) ∨ item ∈ items := by
  induction items with
  | nil => exact .inl (List.mem_singleton.1 h)
  | cons other rest ih =>
      obtain ⟨k, v⟩ := other
      unfold FlushingDict.setItem at h
      split at h
      case isTrue =>
        rcases List.mem_cons.1 h with hfront | hrest
        · exact .inl hfront
        · exact .inr (List.mem_cons_of_mem _ hrest)
      case isFalse =>
        rcases List.mem_cons.1 h with hfront | hrest
        · exact .inr (hfront ▸ List.mem_cons_self)
        · exact (ih hrest).imp_right (List.mem_cons_of_mem _)

theorem setItem_ne_nil (key : K) (value : ℕ × V) (items : List (Numbered K V)) :
    FlushingDict.setItem key value items ≠ [] := by
  cases items with
  | nil => exact List.cons_ne_nil _ _
  | cons other rest =>
      unfold FlushingDict.setItem
      split <;> exact List.cons_ne_nil _ _

variable (s)

theorem adds_add (key : K) (value : V) (now : ℤ) :
    (s.add key value now).adds = s.adds ++ [⟨key, value, now⟩] := rfl

theorem accounts_add (key : K) (value : V) (now : ℤ) :
    (s.add key value now).accounts =
      numbers (FlushingDict.setItem key (s.adds.length, value) s.pending) ++
        numbers (taken s.flights) ++ numbers s.handed ++
        (s.overwritten ++ numbers (replaced key s.pending)) ++ s.discarded := rfl

end FlushState

/-! ## One step keeps it -/

namespace FlushAccounted

theorem nodup_accounts (h : FlushAccounted s) : s.accounts.Nodup :=
  h.accounts.nodup_iff.2 List.nodup_range

/-- What is pending is in no batch. -/
theorem pending_notMem_withdrawn (h : FlushAccounted s) {item : Numbered K V}
    (hitem : item ∈ s.pending) : item.2.1 ∉ s.withdrawn := by
  intro hwithdrawn
  have hnodup := h.nodup_accounts
  unfold FlushState.accounts at hnodup
  rw [List.append_assoc, List.append_assoc, List.append_assoc, List.nodup_append] at hnodup
  have hflown := h.withdrawnFlown _ hwithdrawn
  have hrest : item.2.1 ∈ numbers (FlushState.taken s.flights) ++
      (numbers s.handed ++ (s.overwritten ++ s.discarded)) := by
    rw [List.mem_append] at hflown ⊢
    exact hflown.imp_right (List.mem_append_left _)
  exact hnodup.2.2 _ (mem_numbers.2 ⟨item, hitem, rfl⟩) _ hrest rfl

theorem eq_of_batch (h : FlushAccounted s) {flight flight' : Flight K V}
    (hflight : flight ∈ s.flights) (hflight' : flight' ∈ s.flights)
    (heq : flight.batch = flight'.batch) : flight = flight' :=
  List.inj_on_of_nodup_map h.batchesDistinct hflight hflight' heq

/-- What is in a batch is also with the flush of the batch. -/
theorem mem_flushing (h : FlushAccounted s) {item : Numbered K V} :
    item ∈ s.cache.dict.flushing.flatMap Prod.snd ↔
      ∃ flight ∈ s.flights, item ∈ flight.items ∧ item.2.1 ∉ s.withdrawn := by
  rw [h.batches, List.flatMap_map, List.mem_flatMap]
  refine exists_congr fun flight => and_congr_right fun _ => ?_
  rw [List.mem_filter, decide_eq_true_eq]

theorem flushing_flown (h : FlushAccounted s) {item : Numbered K V}
    (hitem : item ∈ s.cache.dict.flushing.flatMap Prod.snd) :
    item.2.1 ∈ numbers (FlushState.taken s.flights) ++ numbers s.handed := by
  obtain ⟨flight, hflight, hitems, -⟩ := h.mem_flushing.1 hitem
  cases hhanded : flight.handed with
  | false =>
      have htaken := FlushState.mem_taken.2 ⟨flight, hflight, hhanded, hitems⟩
      exact List.mem_append_left _ (mem_numbers.2 ⟨item, htaken, rfl⟩)
  | true => exact List.mem_append_right _ (h.handedFlights flight hflight hhanded item hitems)

/-- A discard withdraws the values of its keys, and since a number has one key, no others. -/
theorem mem_withdrawn_discard (h : FlushAccounted s) (predicate : K → Bool) {flight : Flight K V}
    (hflight : flight ∈ s.flights) {item : Numbered K V} (hitem : item ∈ flight.items) :
    item.2.1 ∈ (s.discard predicate).withdrawn ↔
      item.2.1 ∈ s.withdrawn ∨ predicate item.1 = true := by
  rw [FlushState.withdrawn_discard, List.mem_append]
  constructor
  · rintro (hold | hnew)
    · exact .inl hold
    · obtain ⟨other, hother, hsame⟩ := mem_numbers.1 hnew
      obtain ⟨hflushing, hmatches⟩ := List.mem_filter.1 hother
      obtain ⟨flight', hflight', hitem', -⟩ := h.mem_flushing.1 hflushing
      have hkey := (h.flightNumbers flight' hflight' other hitem').key_eq
        (h.flightNumbers flight hflight item hitem) hsame
      exact .inr (hkey ▸ hmatches)
  · intro hcases
    by_cases hold : item.2.1 ∈ s.withdrawn
    · exact .inl hold
    · have hmatches := hcases.resolve_left hold
      have hflushing := h.mem_flushing.2 ⟨flight, hflight, hitem, hold⟩
      exact .inr (mem_numbers.2 ⟨item, List.mem_filter.2 ⟨hflushing, hmatches⟩, rfl⟩)

theorem take (h : FlushAccounted s) : FlushAccounted s.take := by
  constructor
  case accounts =>
    rw [List.perm_iff_count]
    intro n
    have hold := h.accounts.count_eq n
    unfold FlushState.accounts at hold
    rw [FlushState.accounts_take, numbers_append]
    simp only [List.count_append] at hold ⊢
    show _ = (List.range s.adds.length).count n
    omega
  case pendingNumbers => exact fun item hitem => by cases hitem
  case flightNumbers =>
    intro flight hflight
    rcases List.mem_append.1 hflight with hold | hnew
    · exact h.flightNumbers flight hold
    · rw [List.mem_singleton.1 hnew]
      exact h.pendingNumbers
  case handedNumbers => exact h.handedNumbers
  case overwritten => exact h.overwritten
  case batches =>
    have hkept : (s.pending.filter fun item => item.2.1 ∉ s.withdrawn) = s.pending := by
      refine List.filter_eq_self.2 fun item hitem => ?_
      simpa using h.pending_notMem_withdrawn hitem
    show s.cache.dict.flushing ++ [(s.cache.dict.nextBatch, s.pending)] = _
    rw [h.batches, FlushState.flights_take, List.map_append, List.map_singleton]
    show _ = _ ++ [(s.cache.dict.nextBatch, s.pending.filter fun item => item.2.1 ∉ s.withdrawn)]
    rw [hkept]
    rfl
  case batchesFresh =>
    intro flight hflight
    show flight.batch < s.cache.dict.nextBatch + 1
    rcases List.mem_append.1 hflight with hold | hnew
    · exact (h.batchesFresh flight hold).trans (Nat.lt_succ_self _)
    · rw [List.mem_singleton.1 hnew]
      exact Nat.lt_succ_self _
  case batchesDistinct =>
    rw [FlushState.flights_take, List.map_append, List.map_singleton, List.nodup_append]
    refine ⟨h.batchesDistinct, List.nodup_singleton _, ?_⟩
    intro batch hbatch batch' hbatch' heq
    obtain ⟨flight, hflight, rfl⟩ := List.mem_map.1 hbatch
    rw [List.mem_singleton.1 hbatch'] at heq
    exact absurd heq (h.batchesFresh flight hflight).ne
  case withdrawnFlown =>
    intro n hn
    rw [FlushState.taken_take, numbers_append, List.append_assoc]
    have hflown := List.mem_append.1 (h.withdrawnFlown n hn)
    exact List.mem_append.2 (hflown.imp_right (List.mem_append_right _))
  case handedFlights =>
    intro flight hflight hhanded
    rcases List.mem_append.1 hflight with hold | hnew
    · exact h.handedFlights flight hold hhanded
    · rw [List.mem_singleton.1 hnew] at hhanded
      cases hhanded
  case oldest_none => exact ⟨fun _ => rfl, fun _ => rfl⟩
  case oldest_le => exact fun oldest holdest => by cases holdest

theorem callBack (h : FlushAccounted s) {flight : Flight K V} (hflight : flight ∈ s.flights)
    (hhanded : flight.handed = false) : FlushAccounted (s.callBack flight) := by
  have hperm : (numbers (FlushState.taken s.flights)).Perm (numbers flight.items ++
      numbers (FlushState.taken (FlushState.calledBack s.flights flight.batch))) := by
    rw [← numbers_append]
    exact (FlushState.taken_perm_calledBack hflight h.batchesDistinct hhanded).map _
  constructor
  case accounts =>
    rw [List.perm_iff_count]
    intro n
    have hold := h.accounts.count_eq n
    have htaken := hperm.count_eq n
    unfold FlushState.accounts at hold
    rw [FlushState.accounts_callBack, numbers_append]
    simp only [List.count_append] at hold htaken ⊢
    show _ = (List.range s.adds.length).count n
    omega
  case pendingNumbers => exact h.pendingNumbers
  case flightNumbers =>
    intro other hother item hitem
    obtain ⟨before, hbefore, -, hitems, -⟩ := FlushState.mem_calledBack hother
    exact h.flightNumbers before hbefore item (hitems ▸ hitem)
  case handedNumbers =>
    intro item hitem
    rcases List.mem_append.1 hitem with hold | hnew
    · exact h.handedNumbers item hold
    · exact h.flightNumbers flight hflight item hnew
  case overwritten => exact h.overwritten
  case batches =>
    refine h.batches.trans ?_
    exact (FlushState.map_calledBack s.flights flight.batch fun batch items =>
      (batch, items.filter fun item => item.2.1 ∉ s.withdrawn)).symm
  case batchesFresh =>
    intro other hother
    obtain ⟨before, hbefore, hbatch, -⟩ := FlushState.mem_calledBack hother
    rw [hbatch]
    exact h.batchesFresh before hbefore
  case batchesDistinct =>
    have hsame := FlushState.map_calledBack s.flights flight.batch fun batch _ => batch
    rw [FlushState.flights_callBack]
    exact hsame.symm ▸ h.batchesDistinct
  case withdrawnFlown =>
    intro n hn
    have hflown := h.withdrawnFlown n hn
    rw [FlushState.handed_callBack, numbers_append]
    rcases List.mem_append.1 hflown with htaken | hold
    · rcases List.mem_append.1 (hperm.mem_iff.1 htaken) with hnew | hstill
      · exact List.mem_append_right _ (List.mem_append_right _ hnew)
      · exact List.mem_append_left _ hstill
    · exact List.mem_append_right _ (List.mem_append_left _ hold)
  case handedFlights =>
    intro other hother hothers item hitem
    obtain ⟨before, hbefore, -, hitems, hcause⟩ := FlushState.mem_calledBack hother
    rw [hitems] at hitem
    rw [FlushState.handed_callBack, numbers_append]
    rcases hcause hothers with hearlier | hbatch
    · exact List.mem_append_left _ (h.handedFlights before hbefore hearlier item hitem)
    · have heq : before = flight := h.eq_of_batch hbefore hflight hbatch
      rw [heq] at hitem
      exact List.mem_append_right _ (mem_numbers.2 ⟨item, hitem, rfl⟩)
  case oldest_none => exact h.oldest_none
  case oldest_le => exact h.oldest_le

theorem finish (h : FlushAccounted s) {flight : Flight K V} (hflight : flight ∈ s.flights)
    (hhanded : flight.handed = true) : FlushAccounted (s.finish flight.batch) := by
  have htaken : FlushState.taken (s.finish flight.batch).flights = FlushState.taken s.flights := by
    refine FlushState.taken_filter fun other hother hdropped => ?_
    have hbatch : other.batch = flight.batch := by simpa using hdropped
    rw [h.eq_of_batch hother hflight hbatch, hhanded]
  have hold : ∀ {other : Flight K V}, other ∈ (s.finish flight.batch).flights →
      other ∈ s.flights := fun hother => List.mem_of_mem_filter hother
  constructor
  case accounts =>
    have haccounts : (s.finish flight.batch).accounts = s.accounts := by
      unfold FlushState.accounts
      rw [htaken]
      rfl
    rw [haccounts]
    exact h.accounts
  case pendingNumbers => exact h.pendingNumbers
  case flightNumbers =>
    exact fun other hother => h.flightNumbers other (hold hother)
  case handedNumbers => exact h.handedNumbers
  case overwritten => exact h.overwritten
  case batches =>
    show s.cache.dict.flushing.filter _ = _
    rw [h.batches, List.filter_map]
    rfl
  case batchesFresh =>
    exact fun other hother => h.batchesFresh other (hold hother)
  case batchesDistinct =>
    exact h.batchesDistinct.sublist (List.filter_sublist.map _)
  case withdrawnFlown =>
    intro n hn
    rw [htaken]
    exact h.withdrawnFlown n hn
  case handedFlights =>
    exact fun other hother => h.handedFlights other (hold hother)
  case oldest_none => exact h.oldest_none
  case oldest_le => exact h.oldest_le

theorem discard (h : FlushAccounted s) (predicate : K → Bool) :
    FlushAccounted (s.discard predicate) := by
  constructor
  case accounts =>
    rw [List.perm_iff_count]
    intro n
    have hold := h.accounts.count_eq n
    have hsplit := ((List.filter_append_perm (fun item => predicate item.1) s.pending).map
      fun item : Numbered K V => item.2.1).count_eq n
    rw [List.map_append] at hsplit
    unfold FlushState.accounts numbers at hold
    rw [FlushState.accounts_discard]
    unfold numbers
    simp only [List.count_append] at hold hsplit ⊢
    show _ = (List.range s.adds.length).count n
    omega
  case pendingNumbers =>
    exact fun item hitem => h.pendingNumbers item (List.mem_of_mem_filter hitem)
  case flightNumbers => exact h.flightNumbers
  case handedNumbers => exact h.handedNumbers
  case overwritten => exact h.overwritten
  case batches =>
    show s.cache.dict.flushing.map _ = s.flights.map _
    rw [h.batches, List.map_map]
    refine List.map_congr_left fun flight hflight => ?_
    refine congrArg (Prod.mk flight.batch) ?_
    rw [List.filter_filter]
    refine List.filter_congr fun item hitem => ?_
    have hiff := h.mem_withdrawn_discard predicate hflight hitem
    rw [Bool.eq_iff_iff, Bool.and_eq_true, decide_eq_true_eq, decide_eq_true_eq, hiff, not_or,
      Bool.not_eq_true', Bool.not_eq_true]
    exact and_comm
  case batchesFresh => exact h.batchesFresh
  case batchesDistinct => exact h.batchesDistinct
  case withdrawnFlown =>
    intro n hn
    rw [FlushState.withdrawn_discard] at hn
    rcases List.mem_append.1 hn with hold | hnew
    · exact h.withdrawnFlown n hold
    · obtain ⟨item, hitem, rfl⟩ := mem_numbers.1 hnew
      exact h.flushing_flown (List.mem_of_mem_filter hitem)
  case handedFlights => exact h.handedFlights
  case oldest_none =>
    show (if (s.pending.filter fun item => !predicate item.1).length = 0 then none
      else s.cache.oldestInsert) = none ↔ (s.pending.filter fun item => !predicate item.1) = []
    split
    case isTrue hzero => exact iff_of_true rfl (List.length_eq_zero_iff.1 hzero)
    case isFalse hzero =>
      have hne := mt List.length_eq_zero_iff.2 hzero
      refine iff_of_false (fun hnone => hne ?_) hne
      rw [h.oldest_none.1 hnone, List.filter_nil]
  case oldest_le =>
    intro oldest holdest
    have hkept : oldest ∈ s.cache.oldestInsert := by
      have holdest' : (if (s.pending.filter fun item => !predicate item.1).length = 0 then none
          else s.cache.oldestInsert) = some oldest := holdest
      split at holdest'
      case isTrue => cases holdest'
      case isFalse => exact holdest'
    obtain ⟨hclock, hle⟩ := h.oldest_le oldest hkept
    exact ⟨hclock, fun item hitem => hle item (List.mem_of_mem_filter hitem)⟩

variable [DecidableEq K]

theorem add (h : FlushAccounted s) (key : K) (value : V) {now : ℤ} (hnow : s.clock ≤ now) :
    FlushAccounted (s.add key value now) := by
  have hlast : (s.adds ++ [⟨key, value, now⟩])[s.adds.length]? = some ⟨key, value, now⟩ :=
    List.getElem?_concat_length
  have hget : ∀ {n : ℕ} {added : Added K V}, s.adds[n]? = some added →
      (s.adds ++ [⟨key, value, now⟩])[n]? = some added := by
    intro n added hadded
    obtain ⟨hlt, -⟩ := List.getElem?_eq_some_iff.1 hadded
    rw [List.getElem?_append_left hlt, hadded]
  constructor
  case accounts =>
    rw [List.perm_iff_count]
    intro n
    have hset := (FlushState.setItem_perm key (s.adds.length, value) s.pending).count_eq n
    have hold := h.accounts.count_eq n
    have hlength : (s.adds ++ [(⟨key, value, now⟩ : Added K V)]).length = s.adds.length + 1 :=
      List.length_append
    unfold FlushState.accounts at hold
    rw [FlushState.accounts_add, FlushState.adds_add, hlength, List.range_succ]
    simp only [List.count_append] at hset hold ⊢
    omega
  case pendingNumbers =>
    intro item hitem
    rcases FlushState.mem_setItem hitem with rfl | hold
    · exact ⟨now, hlast⟩
    · exact (h.pendingNumbers item hold).append _
  case flightNumbers =>
    exact fun flight hflight item hitem => (h.flightNumbers flight hflight item hitem).append _
  case handedNumbers => exact fun item hitem => (h.handedNumbers item hitem).append _
  case overwritten =>
    intro n hn
    rcases List.mem_append.1 hn with hold | hreplaced
    · obtain ⟨m, added, later, hlt, hadded, hlater, hkey⟩ := h.overwritten n hold
      exact ⟨m, added, later, hlt, hget hadded, hget hlater, hkey⟩
    · obtain ⟨item, hitem, rfl⟩ := mem_numbers.1 hreplaced
      have hfind : s.pending.find? (fun item => item.1 = key) = some item :=
        Option.mem_toList.1 hitem
      have hpending := h.pendingNumbers item (List.mem_of_find?_eq_some hfind)
      have hkey : item.1 = key := by simpa using List.find?_some hfind
      obtain ⟨time, hadded⟩ := hpending
      obtain ⟨hlt, -⟩ := List.getElem?_eq_some_iff.1 hadded
      exact ⟨s.adds.length, _, ⟨key, value, now⟩, hlt, hget hadded, hlast, hkey.symm⟩
  case batches => exact h.batches
  case batchesFresh => exact h.batchesFresh
  case batchesDistinct => exact h.batchesDistinct
  case withdrawnFlown => exact h.withdrawnFlown
  case handedFlights => exact h.handedFlights
  case oldest_none =>
    have hne := FlushState.setItem_ne_nil key (s.adds.length, value) s.pending
    refine iff_of_false ?_ hne
    show (if s.pending.length = 0 then some now else s.cache.oldestInsert) ≠ none
    by_cases hnil : s.pending = []
    · simp [hnil]
    · simp [hnil, h.oldest_none]
  case oldest_le =>
    intro oldest holdest
    have hcases : oldest = now ∧ s.pending = [] ∨ oldest ∈ s.cache.oldestInsert := by
      have holdest' : (if s.pending.length = 0 then some now else s.cache.oldestInsert) =
          some oldest := holdest
      split at holdest'
      case isTrue hnil =>
        exact .inl ⟨(Option.some.inj holdest').symm, List.length_eq_zero_iff.1 hnil⟩
      case isFalse => exact .inr holdest'
    have hle : oldest ≤ now := by
      rcases hcases with ⟨rfl, -⟩ | hkept
      · exact le_refl _
      · exact ((h.oldest_le oldest hkept).1).trans hnow
    refine ⟨hle, fun item hitem added hadded => ?_⟩
    rcases FlushState.mem_setItem hitem with rfl | hold
    · have heq : some ⟨key, value, now⟩ = some added := hlast.symm.trans hadded
      rw [← Option.some.inj heq]
      exact hle
    · rcases hcases with ⟨-, hnil⟩ | hkept
      · have hempty : item ∈ ([] : List (Numbered K V)) := hnil ▸ hold
        cases hempty
      · refine (h.oldest_le oldest hkept).2 item hold added ?_
        have hlt := (h.pendingNumbers item hold).lt
        exact (List.getElem?_append_left hlt).symm.trans hadded

end FlushAccounted

/-! ## Every run -/

theorem flushAccounted_init (h : FlushState.init s) : FlushAccounted s := by
  obtain ⟨hdict, holdest, hflights, hadds, hhanded, hoverwritten, hdiscarded, hwithdrawn⟩ := h
  have hpending : s.pending = [] := by
    unfold FlushState.pending
    rw [hdict]
    rfl
  have haccounts : s.accounts = [] := by
    unfold FlushState.accounts
    rw [hpending, hflights, hhanded, hoverwritten, hdiscarded]
    rfl
  constructor
  case accounts => rw [haccounts, hadds]; exact List.Perm.refl _
  case pendingNumbers => rw [hpending]; simp
  case flightNumbers => rw [hflights]; simp
  case handedNumbers => rw [hhanded]; simp
  case overwritten => rw [hoverwritten]; simp
  case batches => rw [hdict, hflights]; rfl
  case batchesFresh => rw [hflights]; simp
  case batchesDistinct => rw [hflights]; simp
  case withdrawnFlown => rw [hwithdrawn]; simp
  case handedFlights => rw [hflights]; simp
  case oldest_none => rw [holdest, hpending]; simp
  case oldest_le => rw [holdest]; simp

variable [DecidableEq K]

theorem flushAccounted_step {s t : FlushState K V} {label : FlushLabel K V}
    (h : FlushAccounted s) (hstep : s.step label = some t) : FlushAccounted t := by
  cases label with
  | add key value now =>
      rw [FlushState.step, Option.ite_none_right_eq_some] at hstep
      obtain ⟨hnow, hstep⟩ := hstep
      rw [← Option.some.inj hstep]
      exact h.add key value hnow
  | take =>
      rw [← Option.some.inj hstep]
      exact h.take
  | callBack batch =>
      rw [FlushState.step] at hstep
      split at hstep
      case h_1 flight hfind =>
        have hfound : flight.batch = batch ∧ flight.handed = false := by
          simpa using List.find?_some hfind
        rw [← Option.some.inj hstep]
        exact h.callBack (List.mem_of_find?_eq_some hfind) hfound.2
      case h_2 => cases hstep
  | finish batch raised =>
      rw [FlushState.step] at hstep
      split at hstep
      case h_1 flight hfind =>
        have hfound : flight.batch = batch ∧ flight.handed = true := by
          simpa using List.find?_some hfind
        rw [← Option.some.inj hstep]
        exact h.finish (List.mem_of_find?_eq_some hfind) hfound.2
      case h_2 => cases hstep
  | discard predicate =>
      rw [← Option.some.inj hstep]
      exact h.discard predicate

theorem flushAccounted_of_reachable (h : (flushMachine K V).Reachable s) : FlushAccounted s :=
  Machine.Reachable.invariant (I := FlushAccounted) (fun _ hinit => flushAccounted_init hinit)
    (fun _ _ _ hs hstep => flushAccounted_step hs hstep) h

/-- The flush that has taken what is pending can hand all of it to the callback. -/
theorem exec_flush (h : FlushAccounted s) :
    ∃ t, (flushMachine K V).exec s [.take, .callBack s.cache.dict.nextBatch] = some t ∧
      t.handed = s.handed ++ s.pending := by
  have hfind : s.take.flights.find? (fun flight =>
      flight.batch = s.cache.dict.nextBatch ∧ flight.handed = false) =
        some ⟨s.cache.dict.nextBatch, s.pending, false⟩ := by
    rw [FlushState.flights_take, List.find?_append, List.find?_eq_none.2]
    · simp
    · intro flight hflight
      have hne := (h.batchesFresh flight hflight).ne
      simp [hne]
  have hcall : s.take.step (.callBack s.cache.dict.nextBatch) =
      some (s.take.callBack ⟨s.cache.dict.nextBatch, s.pending, false⟩) := by
    rw [FlushState.step, hfind]
  refine ⟨s.take.callBack ⟨s.cache.dict.nextBatch, s.pending, false⟩, ?_, rfl⟩
  show (some s.take).bind (fun t => (t.step (.callBack s.cache.dict.nextBatch)).bind some) = _
  rw [Option.bind_some, hcall]
  rfl

theorem contains_iff (h : FlushAccounted s) (key : K) :
    s.cache.dict.contains key = true ↔
      (∃ item ∈ s.pending, item.1 = key) ∨
        ∃ flight ∈ s.flights, ∃ item ∈ flight.items, item.1 = key ∧ item.2.1 ∉ s.withdrawn := by
  have hpending : (s.cache.dict.d.any fun kv => kv.1 = key) = true ↔
      ∃ item ∈ s.pending, item.1 = key := by
    simp [FlushState.pending]
  have hflushing : (s.cache.dict.flushing.any fun b => b.2.any fun kv => kv.1 = key) = true ↔
      ∃ flight ∈ s.flights, ∃ item ∈ flight.items, item.1 = key ∧ item.2.1 ∉ s.withdrawn := by
    simp only [h.batches, List.any_map, Function.comp_def, List.any_eq_true, List.mem_filter,
      decide_eq_true_eq, and_assoc, and_comm]
  unfold FlushingDict.contains
  rw [Bool.or_eq_true, hpending, hflushing]

namespace FlushAccounted

omit [DecidableEq K] in
theorem nodup_handed (h : FlushAccounted s) : (numbers s.handed).Nodup := by
  have hnodup := h.nodup_accounts
  unfold FlushState.accounts at hnodup
  have hinner := (List.nodup_append.1 (List.nodup_append.1 hnodup).1).1
  exact (List.nodup_append.1 hinner).2.1

omit [DecidableEq K] in
/-- A value that was added is in one of the places. -/
theorem mem_of_added (h : FlushAccounted s) {n : ℕ} {added : Added K V}
    (hadded : s.adds[n]? = some added) (hoverwritten : n ∉ s.overwritten)
    (hdiscarded : n ∉ s.discarded) (hpending : (added.key, n, added.value) ∉ s.pending)
    (htaken : (added.key, n, added.value) ∉ FlushState.taken s.flights) :
    (added.key, n, added.value) ∈ s.handed := by
  have hitem : ∀ {items : List (Numbered K V)}, (∀ item ∈ items, Numbers s.adds item) →
      n ∈ numbers items → (added.key, n, added.value) ∈ items := by
    intro items hnumbers hn
    obtain ⟨item, hmem, rfl⟩ := mem_numbers.1 hn
    exact (hnumbers item hmem).eq hadded ▸ hmem
  have htakenNumbers : ∀ item ∈ FlushState.taken s.flights, Numbers s.adds item := by
    intro item hmem
    obtain ⟨flight, hflight, -, hitems⟩ := FlushState.mem_taken.1 hmem
    exact h.flightNumbers flight hflight item hitems
  obtain ⟨hlt, -⟩ := List.getElem?_eq_some_iff.1 hadded
  have hmem := h.accounts.mem_iff.2 (List.mem_range.2 hlt)
  simp only [FlushState.accounts, List.mem_append, hoverwritten, hdiscarded, or_false] at hmem
  rcases hmem with (hn | hn) | hn
  · exact absurd (hitem h.pendingNumbers hn) hpending
  · exact absurd (hitem htakenNumbers hn) htaken
  · exact hitem h.handedNumbers hn

end FlushAccounted

/-- Every value added was handed to the callback once, unless it still waits for a flush or for
the call of its flush, or was overwritten by a later one or discarded, each while it was pending;
and what is pending the next flush can hand over.  A key is contained as long as a value of it is
pending or with a flush that has not returned, unless discarded from there.  The oldest insertion
time is there when something is pending, and is not after the time of any of it. -/
theorem flushing_dictionary_exact (h : (flushMachine K V).Reachable s) :
    (∀ n added, s.adds[n]? = some added → n ∉ s.overwritten → n ∉ s.discarded →
      (added.key, n, added.value) ∉ s.pending →
      (added.key, n, added.value) ∉ FlushState.taken s.flights →
      (added.key, n, added.value) ∈ s.handed) ∧
    (numbers s.handed).Nodup ∧
    (∀ item ∈ s.handed, Numbers s.adds item) ∧
    (∀ n ∈ s.overwritten, ∃ m added later, n < m ∧ s.adds[n]? = some added ∧
      s.adds[m]? = some later ∧ later.key = added.key) ∧
    (∃ t, (flushMachine K V).exec s [.take, .callBack s.cache.dict.nextBatch] = some t ∧
      t.handed = s.handed ++ s.pending) ∧
    (∀ key, s.cache.dict.contains key = true ↔
      (∃ item ∈ s.pending, item.1 = key) ∨
        ∃ flight ∈ s.flights, ∃ item ∈ flight.items, item.1 = key ∧ item.2.1 ∉ s.withdrawn) ∧
    (s.cache.oldestInsert = none ↔ s.pending = []) ∧
    ∀ oldest ∈ s.cache.oldestInsert, ∀ item ∈ s.pending, ∀ added,
      s.adds[item.2.1]? = some added → oldest ≤ added.time := by
  have hinv := flushAccounted_of_reachable h
  refine ⟨fun n added hadded => hinv.mem_of_added hadded, hinv.nodup_handed, hinv.handedNumbers,
    hinv.overwritten, exec_flush hinv, contains_iff hinv, hinv.oldest_none, ?_⟩
  exact fun oldest holdest => (hinv.oldest_le oldest holdest).2

/-- A dictionary before anything was added. -/
def FlushState.start : FlushState ℕ ℕ :=
  ⟨⟨FlushingDict.empty ℕ (ℕ × ℕ), 0, none⟩, 0, [], [], [], [], [], []⟩

theorem FlushState.init_start : (flushMachine ℕ ℕ).init FlushState.start := by
  simp [flushMachine, FlushState.init, FlushState.start]

/-- A key is added again while its flush is in progress, and a value is overwritten. -/
theorem flushing_dictionary_exact_example :
    ∃ s, (flushMachine ℕ ℕ).exec FlushState.start
        [.add 1 10 0, .take, .add 1 20 1, .callBack 0, .add 1 30 2, .finish 0 true] = some s ∧
      s.cache.dict.contains 1 = true ∧ (numbers s.handed).Nodup := by
  have hexec : (flushMachine ℕ ℕ).exec FlushState.start
      [.add 1 10 0, .take, .add 1 20 1, .callBack 0, .add 1 30 2, .finish 0 true] = some _ := rfl
  have hreach := Machine.reachable_of_exec FlushState.init_start hexec
  exact ⟨_, hexec, rfl, (flushing_dictionary_exact hreach).2.1⟩

/-- A value discarded while its flush is in progress is contained no longer. -/
theorem discarded_in_flight_not_contained :
    ¬ ∀ s, (flushMachine ℕ ℕ).Reachable s → ∀ flight ∈ s.flights, ∀ item ∈ flight.items,
      s.cache.dict.contains item.1 = true := by
  intro h
  have hexec : (flushMachine ℕ ℕ).exec FlushState.start
      [.add 1 10 0, .take, .discard fun key => key = 1] = some _ := rfl
  have hreach := Machine.reachable_of_exec FlushState.init_start hexec
  have hcontains := h _ hreach ⟨0, [(1, 0, 10)], false⟩ List.mem_cons_self (1, 0, 10)
    List.mem_cons_self
  cases hcontains

end Service
end ContestManagement
