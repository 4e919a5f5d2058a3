import Mathlib.Order.Lattice
import ContestManagement.Lib.Dict

/-!
# Binary heaps with a reverse map

The entries of a heap stand in a list, the children of position `i` at `2 * i + 1` and
`2 * i + 2`, and a dictionary maps the key of each entry to its position.  Every swap of
two positions keeps both up to date.

A move starts from a heap whose order may fail only around one position (`OrderedAround`);
going up repairs the edge above the position, going down the edges below it.
-/

namespace ContestManagement
namespace Lib

structure IndexedHeap (ε κ : Type) where
  queue : List ε
  reverse : Dict κ Nat
  deriving DecidableEq

namespace IndexedHeap

variable {ε κ : Type}

def empty : IndexedHeap ε κ := ⟨[], Dict.empty⟩

/-- Whether the entry at `i` comes before the one at `j`. -/
def before (lt : ε → ε → Bool) (h : IndexedHeap ε κ) (i j : Nat) : Bool :=
  match h.queue[i]?, h.queue[j]? with
  | some a, some b => lt a b
  | _, _ => false

/-- The child of `idx` that comes first; the left one when there is no other. -/
def leastChild (lt : ε → ε → Bool) (h : IndexedHeap ε κ) (idx : Nat) : Nat :=
  if 2 * idx + 2 < h.queue.length && h.before lt (2 * idx + 2) (2 * idx + 1) then 2 * idx + 2
  else 2 * idx + 1

theorem leastChild_eq (lt : ε → ε → Bool) (h : IndexedHeap ε κ) (idx : Nat) :
    h.leastChild lt idx = 2 * idx + 1 ∨
      h.leastChild lt idx = 2 * idx + 2 ∧ 2 * idx + 2 < h.queue.length := by
  unfold leastChild
  split
  case isTrue hright =>
    rw [Bool.and_eq_true, decide_eq_true_eq] at hright
    exact Or.inr ⟨rfl, hright.1⟩
  case isFalse => exact Or.inl rfl

variable [DecidableEq κ] (key : ε → κ)

/-- Swap two entries, keeping their reverse positions up to date. -/
def swap (h : IndexedHeap ε κ) (i j : Nat) : IndexedHeap ε κ :=
  match h.queue[i]?, h.queue[j]? with
  | some a, some b =>
      { queue := (h.queue.set i b).set j a
        reverse := (h.reverse.set (key b) i).set (key a) j }
  | _, _ => h

@[simp] theorem length_swap (h : IndexedHeap ε κ) (i j : Nat) :
    (h.swap key i j).queue.length = h.queue.length := by
  unfold swap
  split <;> simp

/-- Take the entry at `idx` up until its parent does not come after it. -/
def upHeap (lt : ε → ε → Bool) (h : IndexedHeap ε κ) (idx : Nat) : IndexedHeap ε κ × Nat :=
  if 0 < idx ∧ h.before lt idx ((idx - 1) / 2) then
    upHeap lt (h.swap key ((idx - 1) / 2) idx) ((idx - 1) / 2)
  else (h, idx)
termination_by idx
decreasing_by omega

/-- Take the entry at `idx` down until no child comes before it. -/
def downHeap (lt : ε → ε → Bool) (h : IndexedHeap ε κ) (idx : Nat) : IndexedHeap ε κ × Nat :=
  if 2 * idx + 1 < h.queue.length ∧ h.before lt (h.leastChild lt idx) idx then
    downHeap lt (h.swap key (h.leastChild lt idx) idx) (h.leastChild lt idx)
  else (h, idx)
termination_by h.queue.length - idx
decreasing_by
  rw [length_swap]
  have := h.leastChild_eq lt idx
  omega

def updownHeap (lt : ε → ε → Bool) (h : IndexedHeap ε κ) (idx : Nat) : IndexedHeap ε κ × Nat :=
  (h.upHeap key lt idx).1.downHeap key lt (h.upHeap key lt idx).2

/-- Put an entry at the end. -/
def append (h : IndexedHeap ε κ) (e : ε) : IndexedHeap ε κ :=
  { queue := h.queue ++ [e]
    reverse := h.reverse.set (key e) h.queue.length }

/-- Delete the last entry, and a key. -/
def deleteLast (h : IndexedHeap ε κ) (k : κ) : IndexedHeap ε κ :=
  { queue := h.queue.dropLast
    reverse := h.reverse.erase k }

/-! ## The reverse map -/

/-- The reverse map is the inverse of the positions. -/
def ReverseExact (h : IndexedHeap ε κ) : Prop :=
  ∀ k i, h.reverse.get? k = some i ↔ ∃ e, h.queue[i]? = some e ∧ key e = k

variable {key} {h : IndexedHeap ε κ}

theorem getElem?_swap {i j : Nat} {a b : ε} (hi : h.queue[i]? = some a)
    (hj : h.queue[j]? = some b) (n : Nat) :
    (h.swap key i j).queue[n]? = if n = j then some a else if n = i then some b else h.queue[n]? := by
  have hilt : i < h.queue.length := (List.getElem?_eq_some_iff.1 hi).1
  have hjlt : j < h.queue.length := (List.getElem?_eq_some_iff.1 hj).1
  unfold swap
  rw [hi, hj]
  simp only [List.getElem?_set, List.length_set, hilt, hjlt, if_true, eq_comm (a := n)]

theorem reverse_swap {i j : Nat} {a b : ε} (hi : h.queue[i]? = some a)
    (hj : h.queue[j]? = some b) :
    (h.swap key i j).reverse = (h.reverse.set (key b) i).set (key a) j := by
  unfold swap
  rw [hi, hj]

theorem swap_eq_self {i j : Nat} (hnone : h.queue[i]? = none ∨ h.queue[j]? = none) :
    h.swap key i j = h := by
  unfold swap
  split
  case h_1 a b hi hj => simp [hi, hj] at hnone
  case h_2 => rfl

theorem ReverseExact.unique (hexact : h.ReverseExact key) {i j : Nat} {a b : ε}
    (hi : h.queue[i]? = some a) (hj : h.queue[j]? = some b) (hkey : key a = key b) : i = j := by
  have hai := (hexact (key a) i).2 ⟨a, hi, rfl⟩
  have hbj := (hexact (key a) j).2 ⟨b, hj, hkey.symm⟩
  rw [hai] at hbj
  exact Option.some.inj hbj

theorem ReverseExact.nodup (hexact : h.ReverseExact key) : (h.queue.map key).Nodup := by
  rw [List.nodup_iff_injective_getElem]
  rintro ⟨i, hi⟩ ⟨j, hj⟩ heq
  rw [List.length_map] at hi hj
  simp only [List.getElem_map] at heq
  exact Fin.ext (hexact.unique (List.getElem?_eq_getElem hi) (List.getElem?_eq_getElem hj) heq)

theorem ReverseExact.mem_keys_iff (hexact : h.ReverseExact key) {k : κ} :
    (h.reverse.get? k).isSome ↔ ∃ e ∈ h.queue, key e = k := by
  rw [Option.isSome_iff_exists]
  constructor
  · rintro ⟨i, hi⟩
    obtain ⟨e, he, hk⟩ := (hexact k i).1 hi
    exact ⟨e, List.mem_of_getElem? he, hk⟩
  · rintro ⟨e, hmem, hk⟩
    obtain ⟨i, hi⟩ := List.mem_iff_getElem?.1 hmem
    exact ⟨i, (hexact k i).2 ⟨e, hi, hk⟩⟩

theorem ReverseExact.swap (hexact : h.ReverseExact key) (i j : Nat) :
    (h.swap key i j).ReverseExact key := by
  cases hi : h.queue[i]? with
  | none => rwa [swap_eq_self (Or.inl hi)]
  | some a =>
      cases hj : h.queue[j]? with
      | none => rwa [swap_eq_self (Or.inr hj)]
      | some b =>
          intro k n
          rw [reverse_swap hi hj, Dict.get?_set, Dict.get?_set, getElem?_swap hi hj]
          -- A key other than the two swapped ones stands where it stood.
          have hold := hexact k n
          have hia := fun e he hk => hexact.unique (i := n) (a := e) he hi hk
          have hjb := fun e he hk => hexact.unique (i := n) (a := e) he hj hk
          have hab : key a = key b → i = j := hexact.unique hi hj
          split_ifs <;> grind

theorem ReverseExact.append (hexact : h.ReverseExact key) {e : ε}
    (hfresh : h.reverse.get? (key e) = none) : (h.append key e).ReverseExact key := by
  intro k n
  show ((h.reverse.set (key e) h.queue.length).get? k = some n) ↔
    ∃ f, (h.queue ++ [e])[n]? = some f ∧ key f = k
  rw [Dict.get?_set, List.getElem?_append]
  have hold := hexact k n
  have hnone : ∀ f, h.queue[n]? = some f → key f ≠ key e := by
    intro f hf hk
    rw [(hexact (key e) n).2 ⟨f, hf, hk⟩] at hfresh
    cases hfresh
  have hbound : ∀ f, h.queue[n]? = some f → n < h.queue.length :=
    fun f hf => (List.getElem?_eq_some_iff.1 hf).1
  split_ifs <;> grind

theorem ReverseExact.deleteLast (hexact : h.ReverseExact key) {e : ε}
    (hlast : h.queue[h.queue.length - 1]? = some e) :
    (h.deleteLast (key e)).ReverseExact key := by
  intro k n
  show ((h.reverse.erase (key e)).get? k = some n) ↔
    ∃ f, h.queue.dropLast[n]? = some f ∧ key f = k
  rw [Dict.get?_erase, List.getElem?_dropLast]
  have hold := hexact k n
  have huniq := fun f hf hk => hexact.unique (i := n) (a := f) hf hlast hk
  have hbound : ∀ f, h.queue[n]? = some f → n < h.queue.length :=
    fun f hf => (List.getElem?_eq_some_iff.1 hf).1
  split_ifs <;> grind

/-! ## The order -/

section Order

variable {β : Type} [LinearOrder β] (rank : ε → β)

/-- The entry at `i` does not come after the one at `j`. -/
def NotAfter (h : IndexedHeap ε κ) (i j : Nat) : Prop :=
  ∀ a b, h.queue[i]? = some a → h.queue[j]? = some b → rank a ≤ rank b

/-- No entry comes before its parent. -/
def HeapOrdered (h : IndexedHeap ε κ) : Prop :=
  ∀ c, 0 < c → h.NotAfter rank ((c - 1) / 2) c

/-- The order may fail only on the edges at `idx`, and holds over it. -/
structure OrderedAround (h : IndexedHeap ε κ) (idx : Nat) : Prop where
  edges : ∀ c, 0 < c → c ≠ idx → (c - 1) / 2 ≠ idx → h.NotAfter rank ((c - 1) / 2) c
  across : ∀ c, 0 < idx → 0 < c → (c - 1) / 2 = idx → h.NotAfter rank ((idx - 1) / 2) c

/-- The edge above `idx` is in order. -/
def OrderedAbove (h : IndexedHeap ε κ) (idx : Nat) : Prop :=
  0 < idx → h.NotAfter rank ((idx - 1) / 2) idx

/-- The edges below `idx` are in order. -/
def OrderedBelow (h : IndexedHeap ε κ) (idx : Nat) : Prop :=
  ∀ c, 0 < c → (c - 1) / 2 = idx → h.NotAfter rank idx c

variable {rank} {lt : ε → ε → Bool} {idx : Nat}

omit [DecidableEq κ] in
theorem HeapOrdered.around (hheap : h.HeapOrdered rank) (idx : Nat) : h.OrderedAround rank idx := by
  constructor
  · intro c hc _ _
    exact hheap c hc
  · intro c hidx hc hparent a b ha hb
    -- The entry at `idx` stands between the two.
    have hlt : idx < h.queue.length := by
      have := (List.getElem?_eq_some_iff.1 hb).1
      omega
    have hmid : h.queue[idx]? = some h.queue[idx] := List.getElem?_eq_getElem hlt
    have hupper : rank a ≤ rank h.queue[idx] := hheap idx hidx a _ ha hmid
    have hlower : rank h.queue[idx] ≤ rank b := by
      apply hheap c hc _ b _ hb
      rw [hparent]
      exact hmid
    exact hupper.trans hlower

omit [DecidableEq κ] in
theorem OrderedAround.heapOrdered (haround : h.OrderedAround rank idx)
    (habove : h.OrderedAbove rank idx) (hbelow : h.OrderedBelow rank idx) : h.HeapOrdered rank := by
  intro c hc
  by_cases hidx : c = idx
  · subst hidx
    exact habove hc
  by_cases hparent : (c - 1) / 2 = idx
  · rw [hparent]
    exact hbelow c hc hparent
  · exact haround.edges c hc hidx hparent

omit [DecidableEq κ] in
/-- The entry at `idx`, and entries that are gone, do not matter to the order around `idx`. -/
theorem OrderedAround.congr {h' : IndexedHeap ε κ} (haround : h.OrderedAround rank idx)
    (hagree : ∀ n a, n ≠ idx → h'.queue[n]? = some a → h.queue[n]? = some a) :
    h'.OrderedAround rank idx := by
  constructor
  · intro c hc hne hparent a b ha hb
    exact haround.edges c hc hne hparent a b (hagree _ a hparent ha) (hagree _ b hne hb)
  · intro c hidx hc hparent a b ha hb
    have hup : (idx - 1) / 2 ≠ idx := by omega
    have hdown : c ≠ idx := by omega
    exact haround.across c hidx hc hparent a b (hagree _ a hup ha) (hagree _ b hdown hb)

omit [DecidableEq κ] in
/-- The root of a heap does not come after any entry. -/
theorem HeapOrdered.root_least (hheap : h.HeapOrdered rank) (n : Nat) : h.NotAfter rank 0 n := by
  induction n using Nat.strongRecOn with
  | ind n ih =>
      intro a b ha hb
      rcases Nat.eq_zero_or_pos n with rfl | hpos
      · rw [ha, Option.some.injEq] at hb
        exact le_of_eq (congrArg rank hb)
      · have hlt : (n - 1) / 2 < h.queue.length := by
          have := (List.getElem?_eq_some_iff.1 hb).1
          omega
        have hmid : h.queue[(n - 1) / 2]? = some h.queue[(n - 1) / 2] :=
          List.getElem?_eq_getElem hlt
        exact (ih _ (by omega) a _ ha hmid).trans (hheap n hpos _ b hmid hb)

section Moves

variable (hrank : ∀ a b, lt a b = true ↔ rank a < rank b)
include hrank

omit [DecidableEq κ] in
theorem notAfter_of_not_before {i j : Nat} (hbefore : ¬ h.before lt i j = true) :
    h.NotAfter rank j i := by
  intro a b ha hb
  have hlt : ¬ lt b a = true := by simpa [before, ha, hb] using hbefore
  rw [hrank] at hlt
  exact le_of_not_gt hlt

omit [DecidableEq κ] in
theorem exists_of_before {i j : Nat} (hbefore : h.before lt i j = true) :
    ∃ a b, h.queue[i]? = some a ∧ h.queue[j]? = some b ∧ rank a < rank b := by
  unfold before at hbefore
  split at hbefore
  case h_1 a b ha hb => exact ⟨a, b, ha, hb, (hrank a b).1 hbefore⟩
  case h_2 => cases hbefore

/-- A step up leaves the order failing only above the new position. -/
theorem OrderedAround.swap_up (haround : h.OrderedAround rank idx) (hpos : 0 < idx)
    (hbefore : h.before lt idx ((idx - 1) / 2) = true) :
    (h.swap key ((idx - 1) / 2) idx).OrderedAround rank ((idx - 1) / 2) ∧
      (h.swap key ((idx - 1) / 2) idx).OrderedBelow rank ((idx - 1) / 2) := by
  obtain ⟨e, f, he, hf, hlt⟩ := exists_of_before hrank hbefore
  have hget := @getElem?_swap _ _ _ key _ _ _ _ _ hf he
  -- Every other child of the parent was at or after it, and the parent's parent before it.
  have hsibling : ∀ c b, 0 < c → c ≠ idx → (c - 1) / 2 = (idx - 1) / 2 → h.queue[c]? = some b →
      rank f ≤ rank b := by
    intro c b hc hne hparent hb
    refine haround.edges c hc hne (by omega) f b ?_ hb
    rw [hparent]
    exact hf
  have hgrand : ∀ a, 0 < (idx - 1) / 2 → h.queue[((idx - 1) / 2 - 1) / 2]? = some a →
      rank a ≤ rank f :=
    fun a hp ha => haround.edges _ hp (by omega) (by omega) a f ha hf
  refine ⟨⟨?_, ?_⟩, ?_⟩
  · intro c hc hne hparent a b ha hb
    rw [hget] at ha hb
    rw [if_neg hparent] at ha
    by_cases hcidx : c = idx
    · exact absurd (by rw [hcidx]) hparent
    rw [if_neg hcidx, if_neg hne] at hb
    split at ha
    case isTrue hchild =>
      rw [Option.some.injEq] at ha
      subst ha
      exact haround.across c hpos hc hchild f b hf hb
    case isFalse hchild => exact haround.edges c hc hcidx hchild a b ha hb
  · intro c hp hc hparent a b ha hb
    rw [hget, if_neg (by omega), if_neg (by omega)] at ha
    rw [hget, if_neg (show c ≠ (idx - 1) / 2 by omega)] at hb
    split at hb
    case isTrue =>
      rw [Option.some.injEq] at hb
      subst hb
      exact hgrand a hp ha
    case isFalse hne => exact (hgrand a hp ha).trans (hsibling c b hc hne hparent hb)
  · intro c hc hparent a b ha hb
    rw [hget, if_neg (by omega), if_pos rfl, Option.some.injEq] at ha
    rw [hget, if_neg (show c ≠ (idx - 1) / 2 by omega)] at hb
    subst ha
    split at hb
    case isTrue =>
      rw [Option.some.injEq] at hb
      subst hb
      exact hlt.le
    case isFalse hne => exact hlt.le.trans (hsibling c b hc hne hparent hb)

/-- Going up repairs the edge above, and breaks no edge below. -/
theorem upHeap_ordered (h : IndexedHeap ε κ) (idx : Nat) (haround : h.OrderedAround rank idx) :
    (h.upHeap key lt idx).1.OrderedAround rank (h.upHeap key lt idx).2 ∧
      (h.upHeap key lt idx).1.OrderedAbove rank (h.upHeap key lt idx).2 ∧
      (h.OrderedBelow rank idx →
        (h.upHeap key lt idx).1.OrderedBelow rank (h.upHeap key lt idx).2) := by
  fun_induction upHeap key lt h idx with
  | case1 h idx hmove ih =>
      obtain ⟨haround', hbelow'⟩ := haround.swap_up hrank hmove.1 hmove.2
      obtain ⟨h1, h2, h3⟩ := ih haround'
      exact ⟨h1, h2, fun _ => h3 hbelow'⟩
  | case2 h idx hstop =>
      refine ⟨haround, ?_, id⟩
      intro hpos
      exact notAfter_of_not_before hrank fun hbefore => hstop ⟨hpos, hbefore⟩

omit [DecidableEq κ] in
theorem leastChild_least (c : Nat) (hc : 0 < c) (hparent : (c - 1) / 2 = idx) :
    h.NotAfter rank (h.leastChild lt idx) c := by
  have hcases : c = 2 * idx + 1 ∨ c = 2 * idx + 2 := by omega
  intro a b ha hb
  have hlen : c < h.queue.length := (List.getElem?_eq_some_iff.1 hb).1
  unfold leastChild at ha
  split at ha
  case isTrue hright =>
    rw [Bool.and_eq_true, decide_eq_true_eq] at hright
    obtain ⟨x, y, hx, hy, hxy⟩ := exists_of_before hrank hright.2
    rw [ha, Option.some.injEq] at hx
    subst hx
    rcases hcases with rfl | rfl
    · rw [hb, Option.some.injEq] at hy
      exact hy ▸ hxy.le
    · rw [ha, Option.some.injEq] at hb
      exact le_of_eq (congrArg rank hb)
  case isFalse hleft =>
    rcases hcases with rfl | rfl
    · rw [ha, Option.some.injEq] at hb
      exact le_of_eq (congrArg rank hb)
    · refine notAfter_of_not_before hrank (fun hbefore => hleft ?_) a b ha hb
      rw [Bool.and_eq_true, decide_eq_true_eq]
      exact ⟨hlen, hbefore⟩

/-- A step down leaves the order failing only below the new position. -/
theorem OrderedAround.swap_down (haround : h.OrderedAround rank idx)
    (hbefore : h.before lt (h.leastChild lt idx) idx = true) :
    (h.swap key (h.leastChild lt idx) idx).OrderedAround rank (h.leastChild lt idx) ∧
      (h.swap key (h.leastChild lt idx) idx).OrderedAbove rank (h.leastChild lt idx) := by
  have hleast := @leastChild_least _ _ h _ _ _ _ idx hrank
  have hchild := h.leastChild_eq lt idx
  generalize h.leastChild lt idx = child at hbefore hleast hchild
  obtain ⟨f, e, hf, he, hlt⟩ := exists_of_before hrank hbefore
  have hget := @getElem?_swap _ _ _ key _ _ _ _ _ hf he
  have hparent : (child - 1) / 2 = idx := by omega
  refine ⟨⟨?_, ?_⟩, ?_⟩
  · intro c hc hne hnotchild a b ha hb
    rw [hget] at ha hb
    rw [if_neg hnotchild] at ha
    by_cases hcidx : c = idx
    · -- The child now stands at `idx`, and the entry above was over it.
      rw [if_pos hcidx, Option.some.injEq] at hb
      rw [if_neg (by omega), hcidx] at ha
      subst hb
      exact haround.across child (by omega) (by omega) hparent a f ha hf
    rw [if_neg hcidx, if_neg hne] at hb
    split at ha
    case isTrue hsibling =>
      rw [Option.some.injEq] at ha
      subst ha
      exact hleast c hc hsibling f b hf hb
    case isFalse hother => exact haround.edges c hc hcidx hother a b ha hb
  · intro c _ hc hgrandchild a b ha hb
    rw [hget, hparent, if_pos rfl, Option.some.injEq] at ha
    rw [hget, if_neg (by omega), if_neg (by omega)] at hb
    subst ha
    refine haround.edges c hc (by omega) (by omega) f b ?_ hb
    rw [hgrandchild]
    exact hf
  · intro _ a b ha hb
    rw [hget, hparent, if_pos rfl, Option.some.injEq] at ha
    rw [hget, if_neg (by omega), if_pos rfl, Option.some.injEq] at hb
    subst ha
    subst hb
    exact hlt.le

/-- Going down repairs the edges below. -/
theorem downHeap_ordered (h : IndexedHeap ε κ) (idx : Nat) (haround : h.OrderedAround rank idx)
    (habove : h.OrderedAbove rank idx) : (h.downHeap key lt idx).1.HeapOrdered rank := by
  fun_induction downHeap key lt h idx with
  | case1 h idx hmove ih =>
      obtain ⟨haround', habove'⟩ := haround.swap_down hrank hmove.2
      exact ih haround' habove'
  | case2 h idx hstop =>
      refine haround.heapOrdered habove ?_
      intro c hc hparent a b ha hb
      have hlen : c < h.queue.length := (List.getElem?_eq_some_iff.1 hb).1
      have hchild := h.leastChild_eq lt idx
      have hleft : 2 * idx + 1 < h.queue.length := by omega
      have hmin : h.leastChild lt idx < h.queue.length := by omega
      have hupper : h.NotAfter rank idx (h.leastChild lt idx) :=
        notAfter_of_not_before hrank fun hbefore => hstop ⟨hleft, hbefore⟩
      have hlower : h.NotAfter rank (h.leastChild lt idx) c :=
        leastChild_least hrank c hc hparent
      have hmid := List.getElem?_eq_getElem hmin
      exact (hupper a _ ha hmid).trans (hlower _ b hmid hb)

theorem updownHeap_ordered (haround : h.OrderedAround rank idx) :
    (h.updownHeap key lt idx).1.HeapOrdered rank := by
  obtain ⟨haround', habove', _⟩ := upHeap_ordered hrank h idx haround
  exact downHeap_ordered hrank _ _ haround' habove'

end Moves

end Order

/-! ## The moves keep the entries and the reverse map -/

/-- The same entries at other positions, under an exact reverse map. -/
structure Rearranged (key : ε → κ) (h h' : IndexedHeap ε κ) : Prop where
  exact : h'.ReverseExact key
  length : h'.queue.length = h.queue.length
  mem : ∀ e, e ∈ h'.queue ↔ e ∈ h.queue

theorem ReverseExact.rearranged (hexact : h.ReverseExact key) : Rearranged key h h :=
  ⟨hexact, rfl, fun _ => Iff.rfl⟩

theorem Rearranged.trans {h₁ h₂ h₃ : IndexedHeap ε κ} (h12 : Rearranged key h₁ h₂)
    (h23 : Rearranged key h₂ h₃) : Rearranged key h₁ h₃ :=
  ⟨h23.exact, h23.length.trans h12.length, fun e => (h23.mem e).trans (h12.mem e)⟩

theorem mem_swap (i j : Nat) (e : ε) : e ∈ (h.swap key i j).queue ↔ e ∈ h.queue := by
  cases hi : h.queue[i]? with
  | none => rw [swap_eq_self (Or.inl hi)]
  | some a =>
      cases hj : h.queue[j]? with
      | none => rw [swap_eq_self (Or.inr hj)]
      | some b =>
          rw [List.mem_iff_getElem?, List.mem_iff_getElem?]
          constructor
          · rintro ⟨n, hn⟩
            rw [getElem?_swap hi hj] at hn
            split_ifs at hn
            · exact ⟨i, hi.trans hn⟩
            · exact ⟨j, hj.trans hn⟩
            · exact ⟨n, hn⟩
          · rintro ⟨n, hn⟩
            by_cases hni : n = i
            · subst hni
              exact ⟨j, by rw [getElem?_swap hi hj, if_pos rfl, ← hi, hn]⟩
            by_cases hnj : n = j
            · subst hnj
              exact ⟨i, by rw [getElem?_swap hi hj, if_neg (Ne.symm hni), if_pos rfl, ← hj, hn]⟩
            · exact ⟨n, by rw [getElem?_swap hi hj, if_neg hnj, if_neg hni, hn]⟩

theorem ReverseExact.rearranged_swap (hexact : h.ReverseExact key) (i j : Nat) :
    Rearranged key h (h.swap key i j) :=
  ⟨hexact.swap i j, length_swap key h i j, mem_swap i j⟩

theorem ReverseExact.rearranged_upHeap {lt : ε → ε → Bool} (hexact : h.ReverseExact key)
    (idx : Nat) : Rearranged key h (h.upHeap key lt idx).1 := by
  fun_induction upHeap key lt h idx with
  | case1 h idx _ ih =>
      have hswap := hexact.rearranged_swap ((idx - 1) / 2) idx
      exact hswap.trans (ih hswap.exact)
  | case2 => exact hexact.rearranged

theorem ReverseExact.rearranged_downHeap {lt : ε → ε → Bool} (hexact : h.ReverseExact key)
    (idx : Nat) : Rearranged key h (h.downHeap key lt idx).1 := by
  fun_induction downHeap key lt h idx with
  | case1 h idx _ ih =>
      have hswap := hexact.rearranged_swap (h.leastChild lt idx) idx
      exact hswap.trans (ih hswap.exact)
  | case2 => exact hexact.rearranged

theorem ReverseExact.rearranged_updownHeap {lt : ε → ε → Bool} (hexact : h.ReverseExact key)
    (idx : Nat) : Rearranged key h (h.updownHeap key lt idx).1 := by
  have hup := @ReverseExact.rearranged_upHeap _ _ _ _ _ lt hexact idx
  exact hup.trans (hup.exact.rearranged_downHeap _)

/-! ## Adding, deleting and replacing an entry -/

variable {β : Type} [LinearOrder β] {rank : ε → β} {e : ε} {pos : Nat}

theorem mem_append {f : ε} : f ∈ (h.append key e).queue ↔ f ∈ h.queue ∨ f = e := by
  simp [append]

theorem HeapOrdered.append (hheap : h.HeapOrdered rank) :
    (h.append key e).OrderedAround rank h.queue.length := by
  refine (hheap.around _).congr fun n a hne ha => ?_
  have hlen := (List.getElem?_eq_some_iff.1 ha).1
  simp only [IndexedHeap.append, List.length_append, List.length_singleton] at hlen
  rwa [IndexedHeap.append, List.getElem?_append_left (by omega)] at ha

theorem orderedBelow_append : (h.append key e).OrderedBelow rank h.queue.length := by
  intro c hc hparent a b _ hb
  have hlen := (List.getElem?_eq_some_iff.1 hb).1
  simp only [IndexedHeap.append, List.length_append, List.length_singleton] at hlen
  omega

variable (key) in
/-- Move the last entry to `pos`, over the entry that stood there. -/
def deleteAt (h : IndexedHeap ε κ) (pos : Nat) (k : κ) : IndexedHeap ε κ :=
  (h.swap key pos (h.queue.length - 1)).deleteLast k

theorem getElem?_deleteAt (hpos : h.queue[pos]? = some e) (n : Nat) :
    (h.deleteAt key pos (key e)).queue[n]? =
      if n < h.queue.length - 1 then
        if n = pos then h.queue[h.queue.length - 1]? else h.queue[n]?
      else none := by
  have hlt := (List.getElem?_eq_some_iff.1 hpos).1
  have hlast : h.queue[h.queue.length - 1]? = some h.queue[h.queue.length - 1] :=
    List.getElem?_eq_getElem (by omega)
  show (h.swap key pos (h.queue.length - 1)).queue.dropLast[n]? = _
  rw [List.getElem?_dropLast, length_swap]
  split
  case isTrue hn => rw [getElem?_swap hpos hlast, if_neg (by omega), hlast]
  case isFalse => rfl

theorem length_deleteAt (k : κ) : (h.deleteAt key pos k).queue.length = h.queue.length - 1 := by
  simp [deleteAt, deleteLast]

theorem HeapOrdered.deleteAt (hheap : h.HeapOrdered rank) (hpos : h.queue[pos]? = some e) :
    (h.deleteAt key pos (key e)).OrderedAround rank pos := by
  refine (hheap.around _).congr fun n a hne ha => ?_
  rw [getElem?_deleteAt hpos, if_neg hne] at ha
  split at ha
  case isTrue => exact ha
  case isFalse => cases ha

/-- Nothing moves when the last entry is deleted. -/
theorem HeapOrdered.deleteAt_last (hheap : h.HeapOrdered rank)
    (hpos : h.queue[h.queue.length - 1]? = some e) :
    (h.deleteAt key (h.queue.length - 1) (key e)).HeapOrdered rank := by
  intro c hc a b ha hb
  rw [getElem?_deleteAt hpos] at ha hb
  split at hb
  case isTrue hlt =>
    rw [if_neg (by omega)] at hb
    rw [if_pos (by omega), if_neg (by omega)] at ha
    exact hheap c hc a b ha hb
  case isFalse => cases hb

theorem ReverseExact.deleteAt (hexact : h.ReverseExact key) (hpos : h.queue[pos]? = some e) :
    (h.deleteAt key pos (key e)).ReverseExact key := by
  have hlt := (List.getElem?_eq_some_iff.1 hpos).1
  have hlast : h.queue[h.queue.length - 1]? = some h.queue[h.queue.length - 1] :=
    List.getElem?_eq_getElem (by omega)
  refine (hexact.swap pos (h.queue.length - 1)).deleteLast ?_
  rw [length_swap, getElem?_swap hpos hlast, if_pos rfl]

theorem ReverseExact.mem_deleteAt (hexact : h.ReverseExact key) (hpos : h.queue[pos]? = some e)
    {f : ε} : f ∈ (h.deleteAt key pos (key e)).queue ↔ f ∈ h.queue ∧ key f ≠ key e := by
  have hlt := (List.getElem?_eq_some_iff.1 hpos).1
  rw [List.mem_iff_getElem?]
  constructor
  · rintro ⟨n, hn⟩
    rw [getElem?_deleteAt hpos] at hn
    split at hn
    case isFalse => cases hn
    case isTrue hnlt =>
      split at hn
      case isTrue hnpos =>
        refine ⟨List.mem_of_getElem? hn, fun hkey => ?_⟩
        have := hexact.unique hn hpos hkey
        omega
      case isFalse hnpos =>
        exact ⟨List.mem_of_getElem? hn, fun hkey => hnpos (hexact.unique hn hpos hkey)⟩
  · rintro ⟨hmem, hkey⟩
    obtain ⟨n, hn⟩ := List.mem_iff_getElem?.1 hmem
    have hnlt := (List.getElem?_eq_some_iff.1 hn).1
    have hnpos : n ≠ pos := by
      rintro rfl
      rw [hpos, Option.some.injEq] at hn
      exact hkey (congrArg key hn.symm)
    -- The last entry is found where it was moved to.
    by_cases hnlast : n = h.queue.length - 1
    · refine ⟨pos, ?_⟩
      rw [getElem?_deleteAt hpos, if_pos (by omega), if_pos rfl, ← hnlast, hn]
    · refine ⟨n, ?_⟩
      rw [getElem?_deleteAt hpos, if_pos (by omega), if_neg hnpos, hn]

/-- Put another entry at a position. -/
def replace (h : IndexedHeap ε κ) (pos : Nat) (e : ε) : IndexedHeap ε κ :=
  { h with queue := h.queue.set pos e }

omit [DecidableEq κ] in
theorem getElem?_replace {f : ε} (hpos : h.queue[pos]? = some f) (n : Nat) :
    (h.replace pos e).queue[n]? = if n = pos then some e else h.queue[n]? := by
  have hlt := (List.getElem?_eq_some_iff.1 hpos).1
  simp only [replace, List.getElem?_set, hlt, if_true, eq_comm (a := n)]

omit [DecidableEq κ] in
theorem HeapOrdered.replace {f : ε} (hheap : h.HeapOrdered rank) (hpos : h.queue[pos]? = some f) :
    (h.replace pos e).OrderedAround rank pos := by
  refine (hheap.around _).congr fun n a hne ha => ?_
  rwa [getElem?_replace hpos, if_neg hne] at ha

theorem ReverseExact.replace {f : ε} (hexact : h.ReverseExact key) (hpos : h.queue[pos]? = some f)
    (hkey : key e = key f) : (h.replace pos e).ReverseExact key := by
  intro k n
  rw [getElem?_replace hpos]
  show h.reverse.get? k = some n ↔ _
  rw [hexact k n]
  split
  case isTrue heq =>
    subst heq
    simp [hpos, hkey]
  case isFalse => rfl

theorem ReverseExact.mem_replace {f g : ε} (hexact : h.ReverseExact key)
    (hpos : h.queue[pos]? = some f) :
    g ∈ (h.replace pos e).queue ↔ g = e ∨ g ∈ h.queue ∧ key g ≠ key f := by
  rw [List.mem_iff_getElem?]
  constructor
  · rintro ⟨n, hn⟩
    rw [getElem?_replace hpos] at hn
    split at hn
    case isTrue => exact Or.inl (Option.some.inj hn).symm
    case isFalse hne =>
      exact Or.inr ⟨List.mem_of_getElem? hn, fun hkey => hne (hexact.unique hn hpos hkey)⟩
  · rintro (rfl | ⟨hmem, hkey⟩)
    · exact ⟨pos, by rw [getElem?_replace hpos, if_pos rfl]⟩
    · obtain ⟨n, hn⟩ := List.mem_iff_getElem?.1 hmem
      have hne : n ≠ pos := by
        rintro rfl
        rw [hpos, Option.some.injEq] at hn
        exact hkey (congrArg key hn.symm)
      exact ⟨n, by rw [getElem?_replace hpos, if_neg hne, hn]⟩

end IndexedHeap

end Lib
end ContestManagement
